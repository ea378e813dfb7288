import Mathlib.Data.List.DropRight
import Mathlib.Data.List.Forall2
import DoubleEntry.Proofs.JsonFuel
import DoubleEntry.Proofs.JsonTexts

namespace DoubleEntry.Json
open Decimal

def Blanks (gap : List Char) : Prop := ∀ c ∈ gap, isSpace c = true

mutual
inductive Spells : Json → List Char → Prop
  | null : Spells null "null".toList
  | bool (b : Bool) : Spells (bool b) (if b then "true" else "false").toList
  | number (n : Int) : Spells (number n) (ofInt n)
  | string (s : List Char) : Spells (string (some s)) (quote s)
  | noItems {gap : List Char} (blanks : Blanks gap) : Spells (array []) ('[' :: (gap ++ [']']))
  | array {items : List Json} {cs gap : List Char} (spelled : SpellsItems items cs)
      (blanks : Blanks gap) : Spells (array items) ('[' :: (cs ++ (gap ++ [']'])))
  | noFields {gap : List Char} (blanks : Blanks gap) :
      Spells (object []) ('\x7b' :: (gap ++ ['\x7d']))
  | object {fields : List (Content × Json)} {cs gap : List Char}
      (spelled : SpellsFields fields cs) (blanks : Blanks gap) :
      Spells (object fields) ('\x7b' :: (cs ++ (gap ++ ['\x7d'])))
inductive SpellsItems : List Json → List Char → Prop
  | last {v : Json} {cs gap : List Char} (blanks : Blanks gap) (spelled : Spells v cs) :
      SpellsItems [v] (gap ++ cs)
  | more {v : Json} {items : List Json} {cs others gap gap' : List Char} (blanks : Blanks gap)
      (spelled : Spells v cs) (blanks' : Blanks gap') (onward : SpellsItems items others) :
      SpellsItems (v :: items) (gap ++ (cs ++ (gap' ++ ',' :: others)))
inductive SpellsField : Content × Json → List Char → Prop
  | field {s cs gap gap' gap'' : List Char} {v : Json} (blanks : Blanks gap)
      (blanks' : Blanks gap') (blanks'' : Blanks gap'') (spelled : Spells v cs) :
      SpellsField (some s,v) (gap ++ (quote s ++ (gap' ++ ':' :: (gap'' ++ cs))))
inductive SpellsFields : List (Content × Json) → List Char → Prop
  | last {field : Content × Json} {cs : List Char} (spelled : SpellsField field cs) :
      SpellsFields [field] cs
  | more {field : Content × Json} {fields : List (Content × Json)} {cs others gap : List Char}
      (spelled : SpellsField field cs) (blanks : Blanks gap)
      (onward : SpellsFields fields others) :
      SpellsFields (field :: fields) (cs ++ (gap ++ ',' :: others))
end

section Spaces
variable {gap cs rest : List Char}

theorem dropSpaces_cons {c : Char} (solid : isSpace c = false) (cs : List Char) :
    dropSpaces (c :: cs) = c :: cs := by
  simp [dropSpaces,solid]

theorem dropSpaces_blanks (blanks : Blanks gap) (cs : List Char) :
    dropSpaces (gap ++ cs) = dropSpaces cs := List.dropWhile_append_of_pos blanks

theorem dropSpaces_upTo {c : Char} (blanks : Blanks gap) (solid : isSpace c = false)
    (cs : List Char) : dropSpaces (gap ++ c :: cs) = c :: cs := by
  rw [dropSpaces_blanks blanks,dropSpaces_cons solid]

theorem dropSpaces_twice (cs : List Char) : dropSpaces (dropSpaces cs) = dropSpaces cs :=
  List.dropWhile_idempotent _ _

theorem readValue_dropSpaces (fuel : Nat) (cs : List Char) :
    readValue fuel (dropSpaces cs) = readValue fuel cs := by
  cases fuel with
  | zero => rfl
  | succ fuel => rw [readValue,readValue,dropSpaces_twice]

theorem readItems_dropSpaces (fuel : Nat) (cs : List Char) :
    readItems fuel (dropSpaces cs) = readItems fuel cs := by
  cases fuel with
  | zero => rfl
  | succ fuel => rw [readItems,readItems,readValue_dropSpaces]

theorem readFields_dropSpaces (fuel : Nat) (cs : List Char) :
    readFields fuel (dropSpaces cs) = readFields fuel cs := by
  cases fuel with
  | zero => rfl
  | succ fuel => rw [readFields,readFields,dropSpaces_twice]

theorem readValue_blanks (blanks : Blanks gap) (fuel : Nat) (cs : List Char) :
    readValue fuel (gap ++ cs) = readValue fuel cs := by
  rw [← readValue_dropSpaces,dropSpaces_blanks blanks,readValue_dropSpaces]

theorem closes_nil : Closes [] := by
  intro c head
  cases head

theorem closes_cons {c : Char} (known : c ∈ [',',']','\x7d']) (rest : List Char) :
    Closes (c :: rest) := by
  intro d head
  cases head
  simp only [List.mem_cons,List.not_mem_nil,or_false] at known ⊢
  rcases known with rfl | rfl | rfl <;> simp

theorem Closes.blanks (closes : Closes rest) (blanks : Blanks gap) : Closes (gap ++ rest) := by
  intro c head
  cases gap with
  | nil => exact closes c head
  | cons first gap =>
    cases head
    have space := blanks _ List.mem_cons_self
    simp only [isSpace,Bool.or_eq_true,beq_iff_eq] at space
    rcases space with ((rfl | rfl) | rfl) | rfl <;> simp

end Spaces

section Heads
variable {cs : List Char}

theorem ofInt_cons (n : Int) : ∃ c cs, ofInt n = c :: cs ∧ (c = '-' ∨ c.isDigit = true) := by
  unfold ofInt
  split
  · exact ⟨'-',_,rfl,.inl rfl⟩
  · cases is : digits n.natAbs with
    | nil => exact absurd is Nat.toDigits_ne_nil
    | cons d ds =>
      exact ⟨d,ds,rfl,.inr (isDigit_of_mem_digits (n := n.natAbs) (is ▸ List.mem_cons_self))⟩

theorem solid_of_numeral {c : Char} (starts : c = '-' ∨ c.isDigit = true) :
    isSpace c = false ∧ c ≠ ']' := by
  rcases starts with rfl | digit
  · decide
  · have bounds := toNat_of_isDigit digit
    constructor
    · simp only [isSpace,Bool.or_eq_false_iff,beq_eq_false_iff_ne]
      refine ⟨⟨⟨?_,?_⟩,?_⟩,?_⟩ <;>
      · rintro rfl
        exact absurd digit (by decide)
    · rintro rfl
      exact absurd digit (by decide)

theorem readValue_numeral {c : Char} (starts : c = '-' ∨ c.isDigit = true) (fuel : Nat)
    (cs : List Char) : readValue (fuel + 1) (c :: cs) = readNumber (c :: cs) := by
  rw [readValue,dropSpaces_cons (solid_of_numeral starts).1]
  split <;> first | rfl | simp_all

theorem Spells.cons {v : Json} (spelled : Spells v cs) :
    ∃ c others, cs = c :: others ∧ isSpace c = false ∧ c ≠ ']' := by
  cases spelled with
  | null => exact ⟨'n',_,rfl,rfl,by decide⟩
  | bool b => cases b with
    | false => exact ⟨'f',_,rfl,rfl,by decide⟩
    | true => exact ⟨'t',_,rfl,rfl,by decide⟩
  | number n =>
    obtain ⟨c,others,is,starts⟩ := ofInt_cons n
    exact ⟨c,others,is,solid_of_numeral starts⟩
  | string s => exact ⟨'"',_,rfl,rfl,by decide⟩
  | noItems | array => exact ⟨'[',_,rfl,rfl,by decide⟩
  | noFields | object => exact ⟨'\x7b',_,rfl,rfl,by decide⟩

theorem Spells.head {v : Json} {gap : List Char} (spelled : Spells v cs) (blanks : Blanks gap)
    (rest : List Char) :
    ∃ c others, dropSpaces (gap ++ (cs ++ rest)) = c :: others ∧ c ≠ ']' := by
  obtain ⟨c,others,rfl,solid,opens⟩ := spelled.cons
  exact ⟨c,others ++ rest,dropSpaces_upTo blanks solid _,opens⟩

theorem SpellsItems.head {items : List Json} (spelled : SpellsItems items cs) (rest : List Char) :
    ∃ c others, dropSpaces (cs ++ rest) = c :: others ∧ c ≠ ']' := by
  cases spelled with
  | last blanks spelled =>
    rw [List.append_assoc]
    exact spelled.head blanks rest
  | more blanks spelled =>
    rw [List.append_assoc,List.append_assoc]
    exact spelled.head blanks _

theorem SpellsField.head {field : Content × Json} (spelled : SpellsField field cs)
    (rest : List Char) : ∃ others, dropSpaces (cs ++ rest) = '"' :: others := by
  cases spelled with
  | field blanks =>
    rw [List.append_assoc,List.append_assoc]
    exact ⟨_,dropSpaces_upTo blanks rfl _⟩

theorem SpellsFields.head {fields : List (Content × Json)} (spelled : SpellsFields fields cs)
    (rest : List Char) : ∃ others, dropSpaces (cs ++ rest) = '"' :: others := by
  cases spelled with
  | last spelled => exact spelled.head rest
  | more spelled =>
    rw [List.append_assoc]
    exact spelled.head _

end Heads

section Field
variable {s gap gap' text tail rest others : List Char} {v : Json} {fuel : Nat}
  {fields : List (Content × Json)}

theorem readFields_last (blanks : Blanks gap) (blanks' : Blanks gap')
    (value : readValue fuel text = some (v,tail)) (closed : dropSpaces tail = '\x7d' :: rest) :
    readFields (fuel + 1) (gap ++ (quote s ++ (gap' ++ ':' :: text))) =
      some ([(some s,v)],rest) := by
  obtain ⟨others,is,read⟩ := readContent_quote s (gap' ++ ':' :: text)
  rw [readFields,dropSpaces_blanks blanks,is,dropSpaces_cons rfl]
  simp only [read,dropSpaces_upTo (c := ':') blanks' rfl,value,closed]

theorem readFields_more (blanks : Blanks gap) (blanks' : Blanks gap')
    (value : readValue fuel text = some (v,tail)) (comma : dropSpaces tail = ',' :: rest)
    (onward : readFields fuel rest = some (fields,others)) :
    readFields (fuel + 1) (gap ++ (quote s ++ (gap' ++ ':' :: text))) =
      some ((some s,v) :: fields,others) := by
  obtain ⟨others,is,read⟩ := readContent_quote s (gap' ++ ':' :: text)
  rw [readFields,dropSpaces_blanks blanks,is,dropSpaces_cons rfl]
  simp only [read,dropSpaces_upTo (c := ':') blanks' rfl,value,comma,onward,Option.map_some]

end Field

-- A level of brackets uses up two characters and two steps, an item its own length and a comma,
-- hence the bounds on the fuel.
mutual
theorem readValue_spells (fuel : Nat) {v : Json} {cs gap rest : List Char}
    (spelled : Spells v cs) (blanks : Blanks gap) (closes : Closes rest)
    (enough : 2 * cs.length ≤ fuel) : readValue fuel (gap ++ (cs ++ rest)) = some (v,rest) := by
  rw [readValue_blanks blanks]
  obtain ⟨c,others,starts,-⟩ := spelled.cons
  obtain _ | fuel := fuel
  · simp [starts] at enough
  cases spelled with
  | null => rfl
  | bool b => cases b <;> rfl
  | number n =>
    obtain ⟨c,others,is,numeral⟩ := ofInt_cons n
    have read := readNumber_ofInt n closes
    rw [is,List.cons_append] at read ⊢
    rw [readValue_numeral numeral,read]
  | string s =>
    obtain ⟨others,is,read⟩ := readContent_quote s rest
    rw [is,readValue,dropSpaces_cons rfl]
    simp only [read,Option.map_some]
  | noItems blanks =>
    simp only [List.cons_append,List.append_assoc,List.nil_append]
    rw [readValue,dropSpaces_cons rfl]
    simp only [dropSpaces_upTo (c := ']') blanks rfl]
  | @array items cs gap spelled blanks =>
    obtain ⟨c,others,first,opens⟩ := spelled.head (gap ++ ']' :: rest)
    have read := readItems_spells fuel rest spelled blanks (by simp at enough; omega)
    simp only [List.cons_append,List.append_assoc,List.nil_append]
    rw [readValue,dropSpaces_cons rfl]
    rw [← readItems_dropSpaces,first] at read
    simp only [first]
    -- no item begins as an empty array goes on
    split
    · rename_i same
      cases same
      exact (opens rfl).elim
    · rw [read]
      rfl
  | noFields blanks =>
    simp only [List.cons_append,List.append_assoc,List.nil_append]
    rw [readValue,dropSpaces_cons rfl]
    simp only [dropSpaces_upTo (c := '\x7d') blanks rfl]
  | @object fields cs gap spelled blanks =>
    obtain ⟨others,first⟩ := spelled.head (gap ++ '\x7d' :: rest)
    have read := readFields_spells fuel rest spelled blanks (by simp at enough; omega)
    simp only [List.cons_append,List.append_assoc,List.nil_append]
    rw [readValue,dropSpaces_cons rfl]
    rw [← readFields_dropSpaces,first] at read
    simp only [first]
    split
    · rename_i same
      simp at same
    · rw [read]
      rfl
theorem readItems_spells (fuel : Nat) (rest : List Char) {items : List Json} {cs gap : List Char}
    (spelled : SpellsItems items cs) (blanks : Blanks gap) (enough : 2 * cs.length + 1 ≤ fuel) :
    readItems fuel (cs ++ (gap ++ ']' :: rest)) = some (items,rest) := by
  obtain _ | fuel := fuel
  · omega
  cases spelled with
  | last before spelled =>
    have closes := (closes_cons (c := ']') (by simp) rest).blanks blanks
    rw [List.append_assoc,readItems,
      readValue_spells fuel spelled before closes (by simp at enough; omega)]
    simp only [dropSpaces_upTo (c := ']') blanks rfl]
  | more before spelled behind onward =>
    have closes := fun rest => (closes_cons (c := ',') (by simp) rest).blanks behind
    simp only [List.append_assoc,List.cons_append]
    rw [readItems,readValue_spells fuel spelled before (closes _) (by simp at enough; omega)]
    simp only [dropSpaces_upTo (c := ',') behind rfl]
    rw [readItems_spells fuel rest onward blanks (by simp at enough; omega)]
    rfl
theorem readFields_spells (fuel : Nat) (rest : List Char) {fields : List (Content × Json)}
    {cs gap : List Char} (spelled : SpellsFields fields cs) (blanks : Blanks gap)
    (enough : 2 * cs.length + 1 ≤ fuel) :
    readFields fuel (cs ++ (gap ++ '\x7d' :: rest)) = some (fields,rest) := by
  obtain _ | fuel := fuel
  · omega
  cases spelled with
  | last spelled =>
    cases spelled with
    | field before within after spelled =>
      have closes := (closes_cons (c := '\x7d') (by simp) rest).blanks blanks
      have value := readValue_spells fuel spelled after closes (by simp at enough; omega)
      simp only [List.append_assoc,List.cons_append]
      exact readFields_last before within value (dropSpaces_upTo blanks rfl _)
  | more spelled behind onward =>
    cases spelled with
    | field before within after spelled =>
      have closes := fun rest => (closes_cons (c := ',') (by simp) rest).blanks behind
      have value := fun rest =>
        readValue_spells fuel spelled after (closes rest) (by simp at enough; omega)
      have read := readFields_spells fuel rest onward blanks (by simp at enough; omega)
      simp only [List.append_assoc,List.cons_append]
      exact readFields_more before within (value _) (dropSpaces_upTo behind rfl _) read
end

theorem parse_spells {v : Json} {cs gap gap' : List Char} (spelled : Spells v cs)
    (blanks : Blanks gap) (blanks' : Blanks gap') : parse (gap ++ (cs ++ gap')) = some v := by
  have closes : Closes gap' := List.append_nil gap' ▸ closes_nil.blanks blanks'
  have read := readValue_spells (2 * (gap ++ (cs ++ gap')).length + 2) spelled blanks closes
    (by simp; omega)
  have behind : dropSpaces gap' = [] := by
    have whole := dropSpaces_blanks blanks' []
    rwa [List.append_nil] at whole
  exact (parse_fuel (Nat.le_succ _)).mpr ⟨gap',read,behind⟩

mutual
def Plain : Json → Prop
  | null => True
  | bool _ => True
  | number _ => True
  | fractional => False
  | string s => s.isSome
  | array items => AllPlain items
  | object fields => FieldsPlain fields
def AllPlain : List Json → Prop
  | [] => True
  | v :: rest => v.Plain ∧ AllPlain rest
def FieldsPlain : List (Content × Json) → Prop
  | [] => True
  | (key,v) :: rest => key.isSome ∧ v.Plain ∧ FieldsPlain rest
end

section Writing
variable {gap : List Char} {items : List Json} {fields : List (Content × Json)}
  {lines : List (List Char)}

theorem blanks_nil : Blanks [] := List.forall_mem_nil _

theorem blanks_newline (depth : Nat) : Blanks (newline depth) := by
  intro c member
  rcases List.mem_cons.mp member with rfl | member
  · rfl
  · rw [List.eq_of_mem_replicate member]
    rfl

theorem SpellsField.indent {field : Content × Json} {cs : List Char}
    (spelled : SpellsField field cs) (blanks : Blanks gap) : SpellsField field (gap ++ cs) := by
  cases spelled with
  | field before within after spelled =>
    rw [← List.append_assoc]
    exact .field (List.forall_mem_append.mpr ⟨blanks,before⟩) within after spelled

theorem spells_joined (blanks : Blanks gap) (spelled : List.Forall₂ Spells items lines)
    (filled : items ≠ []) : SpellsItems items (gap ++ joined (',' :: gap) lines) := by
  induction spelled with
  | nil => exact absurd rfl filled
  | cons first rest ih =>
    cases rest with
    | nil => exact .last blanks first
    | cons second rest =>
      have onward := ih (List.cons_ne_nil _ _)
      simpa [joined] using SpellsItems.more blanks first blanks_nil onward

theorem spells_joined_fields (blanks : Blanks gap)
    (spelled : List.Forall₂ SpellsField fields lines) (filled : fields ≠ []) :
    SpellsFields fields (gap ++ joined (',' :: gap) lines) := by
  induction spelled with
  | nil => exact absurd rfl filled
  | cons first rest ih =>
    cases rest with
    | nil => exact .last (first.indent blanks)
    | cons second rest =>
      have onward := ih (List.cons_ne_nil _ _)
      simpa [joined] using SpellsFields.more (first.indent blanks) blanks_nil onward

theorem spells_compact_array (spelled : List.Forall₂ Spells items (compactAll items)) :
    Spells (array items) (array items).compact := by
  rw [compact]
  cases items with
  | nil => exact .noItems blanks_nil
  | cons v items =>
    have joined := spells_joined blanks_nil spelled (List.cons_ne_nil _ _)
    simpa using Spells.array joined blanks_nil

theorem spells_compact_object (spelled : List.Forall₂ SpellsField fields (compactFields fields)) :
    Spells (object fields) (object fields).compact := by
  rw [compact]
  cases fields with
  | nil => exact .noFields blanks_nil
  | cons field fields =>
    have joined := spells_joined_fields blanks_nil spelled (List.cons_ne_nil _ _)
    simpa using Spells.object joined blanks_nil

mutual
theorem compact_spells (v : Json) (plain : v.Plain) : Spells v v.compact := by
  cases v with
  | null => exact .null
  | bool b => exact .bool b
  | number n => exact .number n
  | fractional => exact plain.elim
  | string s =>
    obtain _ | s := s
    · cases plain
    · exact .string s
  | array items => exact spells_compact_array (compactAll_spells items plain)
  | object fields => exact spells_compact_object (compactFields_spells fields plain)
theorem compactAll_spells (items : List Json) (plain : AllPlain items) :
    List.Forall₂ Spells items (compactAll items) := by
  cases items with
  | nil => exact .nil
  | cons v items => exact .cons (compact_spells v plain.1) (compactAll_spells items plain.2)
theorem compactFields_spells (fields : List (Content × Json)) (plain : FieldsPlain fields) :
    List.Forall₂ SpellsField fields (compactFields fields) := by
  cases fields with
  | nil => exact .nil
  | cons field fields =>
    obtain ⟨_ | s,v⟩ := field
    · cases plain.1
    · have value := compact_spells v plain.2.1
      exact .cons (.field blanks_nil blanks_nil blanks_nil value)
        (compactFields_spells fields plain.2.2)
end

theorem block_cons (left right : Char) (depth : Nat) (line : List Char) :
    block left right depth (line :: lines) =
      left :: ((newline (depth + 1) ++ joined (',' :: newline (depth + 1)) (line :: lines)) ++
        (newline depth ++ [right])) := by
  simp [block]

theorem spells_block_array (depth : Nat) (spelled : List.Forall₂ Spells items lines) :
    Spells (array items) (block '[' ']' depth lines) := by
  cases spelled with
  | nil => exact .noItems blanks_nil
  | cons first others =>
    rw [block_cons]
    have joined := spells_joined (blanks_newline (depth + 1)) (.cons first others)
      (List.cons_ne_nil _ _)
    exact .array joined (blanks_newline depth)

theorem spells_block_object (depth : Nat) (spelled : List.Forall₂ SpellsField fields lines) :
    Spells (object fields) (block '\x7b' '\x7d' depth lines) := by
  cases spelled with
  | nil => exact .noFields blanks_nil
  | cons first others =>
    rw [block_cons]
    have joined := spells_joined_fields (blanks_newline (depth + 1)) (.cons first others)
      (List.cons_ne_nil _ _)
    exact .object joined (blanks_newline depth)

mutual
theorem pretty_spells (depth : Nat) (v : Json) (plain : v.Plain) : Spells v (v.pretty depth) := by
  cases v with
  | null => exact .null
  | bool b => exact .bool b
  | number n => exact .number n
  | fractional => exact plain.elim
  | string s => exact compact_spells (string s) plain
  | array items => exact spells_block_array depth (prettyAll_spells (depth + 1) items plain)
  | object fields => exact spells_block_object depth (prettyFields_spells (depth + 1) fields plain)
theorem prettyAll_spells (depth : Nat) (items : List Json) (plain : AllPlain items) :
    List.Forall₂ Spells items (prettyAll depth items) := by
  cases items with
  | nil => exact .nil
  | cons v items =>
    exact .cons (pretty_spells depth v plain.1) (prettyAll_spells depth items plain.2)
theorem prettyFields_spells (depth : Nat) (fields : List (Content × Json))
    (plain : FieldsPlain fields) :
    List.Forall₂ SpellsField fields (prettyFields depth fields) := by
  cases fields with
  | nil => exact .nil
  | cons field fields =>
    obtain ⟨_ | s,v⟩ := field
    · cases plain.1
    · have space : Blanks [' '] := by simp [Blanks,isSpace]
      have value := pretty_spells depth v plain.2.1
      exact .cons (.field blanks_nil blanks_nil space value)
        (prettyFields_spells depth fields plain.2.2)
end

end Writing

theorem parse_alone {v : Json} {cs : List Char} (spelled : Spells v cs) : parse cs = some v := by
  have read := parse_spells spelled blanks_nil blanks_nil
  rwa [List.nil_append,List.append_nil] at read

theorem parse_render {v : Json} (plain : v.Plain) : parse v.render.toList = some v := by
  rw [render,String.toList_ofList,parse_alone (compact_spells v plain)]

theorem parse_renderPretty {v : Json} (plain : v.Plain) :
    parse v.renderPretty.toList = some v := by
  rw [renderPretty,String.toList_ofList,parse_alone (pretty_spells 0 v plain)]

end DoubleEntry.Json
