import DoubleEntry.Json.Reader

namespace DoubleEntry.Json

variable {fuel : Nat} {cs rest : List Char}

theorem dropSpaces_suffix (cs : List Char) : dropSpaces cs <:+ cs := List.dropWhile_suffix _

theorem suffix_of_char {c : Char} (same : dropSpaces cs = c :: rest) : rest <:+ cs := by
  have left := dropSpaces_suffix cs
  rw [same] at left
  exact (List.suffix_cons c rest).trans left

theorem exists_of_map {α β : Type} {f : α × List Char → β × List Char} {b : β}
    {found : Option (α × List Char)} (read : found.map f = some (b,rest))
    (keeps : ∀ out, (f out).2 = out.2) : ∃ a, found = some (a,rest) := by
  obtain ⟨⟨a,behind⟩,inner,same⟩ := Option.map_eq_some_iff.mp read
  have tail := keeps (a,behind)
  rw [same] at tail
  cases tail
  exact ⟨a,inner⟩

theorem readContent_suffix {s : Content} (read : readContent cs = some (s,rest)) : rest <:+ cs := by
  fun_induction readContent cs generalizing s rest with
  | case1 | case3 | case4 | case7 | case9 | case11 => cases read
  | case2 others =>
    cases read
    exact List.suffix_cons _ _
  | case5 _ _ _ _ _ _ _ _ others _ _ _ _ _ ih =>
    obtain ⟨_,inner⟩ := exists_of_map read fun _ => rfl
    exact (ih inner).trans ⟨[_,_,_,_,_,_,_,_,_,_,_,_],rfl⟩
  | case6 _ _ _ _ _ _ _ _ others _ _ _ ih =>
    obtain ⟨_,inner⟩ := exists_of_map read fun _ => rfl
    exact (ih inner).trans ⟨[_,_,_,_,_,_],rfl⟩
  | case8 _ _ _ _ others _ _ _ ih =>
    obtain ⟨_,inner⟩ := exists_of_map read fun _ => rfl
    exact (ih inner).trans ⟨[_,_,_,_,_,_],rfl⟩
  | case10 _ others _ _ _ _ ih =>
    obtain ⟨_,inner⟩ := exists_of_map read fun _ => rfl
    exact (ih inner).trans ⟨[_,_],rfl⟩
  | case12 _ others _ _ _ _ _ ih =>
    obtain ⟨_,inner⟩ := exists_of_map read fun _ => rfl
    exact (ih inner).trans (List.suffix_cons _ _)

theorem spanDigits_suffix (cs : List Char) : (spanDigits cs).2 <:+ cs := List.dropWhile_suffix _

theorem suffix_of_span {ds : List Char} (same : spanDigits cs = (ds,rest)) : rest <:+ cs := by
  have left := spanDigits_suffix cs
  rwa [same] at left

theorem readFraction_suffix {found : Bool} (read : readFraction cs = some (found,rest)) :
    rest <:+ cs := by
  unfold readFraction at read
  split at read
  · refine List.IsSuffix.trans ?_ (List.suffix_cons _ _)
    split at read
    · cases read
    · rename_i same
      cases read
      exact suffix_of_span same
  · cases read
    exact List.suffix_rfl

theorem readExponent_suffix {found : Bool} (read : readExponent cs = some (found,rest)) :
    rest <:+ cs := by
  unfold readExponent at read
  split at read
  · split at read
    · split at read
      all_goals
        dsimp only at read
        split at read
        · cases read
        rename_i same
        cases read
        refine (suffix_of_span same).trans ?_
      · exact List.suffix_append [_,'+'] _
      · exact List.suffix_append [_,'-'] _
      · exact List.suffix_cons _ _
    · cases read
      exact List.suffix_rfl
  · cases read
    exact List.suffix_rfl

theorem readMagnitude_suffix {negative : Bool} {v : Json}
    (read : readMagnitude negative cs = some (v,rest)) : rest <:+ cs := by
  simp only [readMagnitude,Option.bind_eq_bind] at read
  split at read
  all_goals
    split at read
    · cases read
    obtain ⟨⟨_,behind⟩,fraction,read⟩ := Option.bind_eq_some_iff.mp read
    obtain ⟨⟨_,left⟩,exponent,read⟩ := Option.bind_eq_some_iff.mp read
    have last : left = rest := by
      split at read
      all_goals
        cases read
        rfl
    subst last
    refine ((readExponent_suffix exponent).trans (readFraction_suffix fraction)).trans ?_
  · exact List.suffix_cons _ _
  · exact spanDigits_suffix _

theorem readNumber_suffix {v : Json} (read : readNumber cs = some (v,rest)) : rest <:+ cs := by
  unfold readNumber at read
  split at read
  · exact (readMagnitude_suffix read).trans (List.suffix_cons _ _)
  · exact readMagnitude_suffix read

structure RestIsSuffix (fuel : Nat) : Prop where
  value {cs rest : List Char} {v : Json} (read : readValue fuel cs = some (v,rest)) : rest <:+ cs
  items {cs rest : List Char} {items : List Json}
    (read : readItems fuel cs = some (items,rest)) : rest <:+ cs
  fields {cs rest : List Char} {fields : List (Content × Json)}
    (read : readFields fuel cs = some (fields,rest)) : rest <:+ cs

theorem RestIsSuffix.value_step (ih : RestIsSuffix fuel) {v : Json}
    (read : readValue (fuel + 1) cs = some (v,rest)) : rest <:+ cs := by
  rw [readValue] at read
  split at read
  · rename_i same
    cases read
    exact List.IsSuffix.trans ⟨['u','l','l'],rfl⟩ (suffix_of_char same)
  · rename_i same
    cases read
    exact List.IsSuffix.trans ⟨['r','u','e'],rfl⟩ (suffix_of_char same)
  · rename_i same
    cases read
    exact List.IsSuffix.trans ⟨['a','l','s','e'],rfl⟩ (suffix_of_char same)
  · rename_i same
    obtain ⟨_,inner⟩ := exists_of_map read fun _ => rfl
    exact (readContent_suffix inner).trans (suffix_of_char same)
  · rename_i others same
    refine List.IsSuffix.trans ?_ (suffix_of_char same)
    split at read
    · rename_i closes
      cases read
      exact suffix_of_char closes
    · obtain ⟨_,inner⟩ := exists_of_map read fun _ => rfl
      exact (ih.items inner).trans (dropSpaces_suffix others)
  · rename_i others same
    refine List.IsSuffix.trans ?_ (suffix_of_char same)
    split at read
    · rename_i closes
      cases read
      exact suffix_of_char closes
    · obtain ⟨_,inner⟩ := exists_of_map read fun _ => rfl
      exact (ih.fields inner).trans (dropSpaces_suffix others)
  · exact (readNumber_suffix read).trans (dropSpaces_suffix cs)

theorem RestIsSuffix.items_step (ih : RestIsSuffix fuel) {items : List Json}
    (read : readItems (fuel + 1) cs = some (items,rest)) : rest <:+ cs := by
  rw [readItems] at read
  split at read
  · cases read
  · rename_i value
    refine List.IsSuffix.trans ?_ (ih.value value)
    split at read
    · rename_i comma
      obtain ⟨_,inner⟩ := exists_of_map read fun _ => rfl
      exact (ih.items inner).trans (suffix_of_char comma)
    · rename_i closes
      cases read
      exact suffix_of_char closes
    · cases read

theorem RestIsSuffix.fields_step (ih : RestIsSuffix fuel) {fields : List (Content × Json)}
    (read : readFields (fuel + 1) cs = some (fields,rest)) : rest <:+ cs := by
  rw [readFields] at read
  split at read
  · rename_i quote
    refine List.IsSuffix.trans ?_ (suffix_of_char quote)
    split at read
    · cases read
    · rename_i content
      refine List.IsSuffix.trans ?_ (readContent_suffix content)
      split at read
      · rename_i colon
        refine List.IsSuffix.trans ?_ (suffix_of_char colon)
        split at read
        · cases read
        · rename_i value
          refine List.IsSuffix.trans ?_ (ih.value value)
          split at read
          · rename_i comma
            obtain ⟨_,inner⟩ := exists_of_map read fun _ => rfl
            exact (ih.fields inner).trans (suffix_of_char comma)
          · rename_i closes
            cases read
            exact suffix_of_char closes
          · cases read
      · cases read
  · cases read

theorem restIsSuffix (fuel : Nat) : RestIsSuffix fuel := by
  induction fuel with
  | zero =>
    constructor
    all_goals
      intro _ _ _ read
      cases read
  | succ fuel ih => exact ⟨ih.value_step,ih.items_step,ih.fields_step⟩

-- Each bracket and each comma costs two: one for the reader of the list, one for its value.
structure FuelStable (fuel : Nat) : Prop where
  value {cs : List Char} (enough : 2 * cs.length + 1 ≤ fuel) :
    readValue (fuel + 1) cs = readValue fuel cs
  items {cs : List Char} (enough : 2 * cs.length + 2 ≤ fuel) :
    readItems (fuel + 1) cs = readItems fuel cs
  fields {cs : List Char} (enough : 2 * cs.length + 2 ≤ fuel) :
    readFields (fuel + 1) cs = readFields fuel cs

theorem FuelStable.value_step (ih : FuelStable fuel) (enough : 2 * cs.length + 1 ≤ fuel + 1) :
    readValue (fuel + 1 + 1) cs = readValue (fuel + 1) cs := by
  rw [readValue,readValue]
  have left := (dropSpaces_suffix cs).length_le
  -- Both sides look at the same text; without its origin one split serves both.
  generalize dropSpaces cs = ds at left
  split
  · rfl
  · rfl
  · rfl
  · rfl
  · rename_i others
    have inner := (dropSpaces_suffix others).length_le
    rw [List.length_cons] at left
    generalize dropSpaces others = es at inner
    split
    · rfl
    · rw [ih.items (by omega)]
  · rename_i others
    have inner := (dropSpaces_suffix others).length_le
    rw [List.length_cons] at left
    generalize dropSpaces others = es at inner
    split
    · rfl
    · rw [ih.fields (by omega)]
  · rfl

theorem FuelStable.items_step (ih : FuelStable fuel) (enough : 2 * cs.length + 2 ≤ fuel + 1) :
    readItems (fuel + 1 + 1) cs = readItems (fuel + 1) cs := by
  rw [readItems,readItems,ih.value (by omega)]
  cases value : readValue fuel cs with
  | none => rfl
  | some out =>
    obtain ⟨v,rest⟩ := out
    have left := ((dropSpaces_suffix rest).trans ((restIsSuffix fuel).value value)).length_le
    dsimp only
    generalize dropSpaces rest = ds at left
    split
    · rw [List.length_cons] at left
      rw [ih.items (by omega)]
    · rfl
    · rfl

theorem FuelStable.fields_step (ih : FuelStable fuel) (enough : 2 * cs.length + 2 ≤ fuel + 1) :
    readFields (fuel + 1 + 1) cs = readFields (fuel + 1) cs := by
  rw [readFields,readFields]
  have named := (dropSpaces_suffix cs).length_le
  generalize dropSpaces cs = ds at named
  split
  · rename_i others
    rw [List.length_cons] at named
    cases content : readContent others with
    | none => rfl
    | some out =>
      obtain ⟨key,rest⟩ := out
      have left := ((dropSpaces_suffix rest).trans (readContent_suffix content)).length_le
      dsimp only
      generalize dropSpaces rest = es at left
      split
      · rename_i others
        rw [List.length_cons] at left
        rw [ih.value (by omega)]
        cases value : readValue fuel others with
        | none => rfl
        | some out =>
          obtain ⟨v,rest⟩ := out
          have last := ((dropSpaces_suffix rest).trans ((restIsSuffix fuel).value value)).length_le
          dsimp only
          generalize dropSpaces rest = fs at last
          split
          · rw [List.length_cons] at last
            rw [ih.fields (by omega)]
          · rfl
          · rfl
      · rfl
  · rfl

theorem fuelStable (fuel : Nat) : FuelStable fuel := by
  induction fuel with
  | zero => exact ⟨by omega,by omega,by omega⟩
  | succ fuel ih => exact ⟨ih.value_step,ih.items_step,ih.fields_step⟩

theorem readValue_fuel (more : 2 * cs.length + 1 ≤ fuel) :
    readValue fuel cs = readValue (2 * cs.length + 1) cs := by
  obtain ⟨k,rfl⟩ := Nat.exists_eq_add_of_le more
  induction k with
  | zero => rfl
  | succ k ih =>
    have before := Nat.le_add_right (2 * cs.length + 1) k
    rw [← Nat.add_assoc,(fuelStable _).value before,ih before]

-- Any fuel the text cannot use up gives the same value, so the one chosen is no limit.
theorem parse_fuel {v : Json} (more : 2 * cs.length + 1 ≤ fuel) :
    parse cs = some v ↔ ∃ rest, readValue fuel cs = some (v,rest) ∧ dropSpaces rest = [] := by
  rw [parse,readValue_fuel (Nat.le_succ _),readValue_fuel more]
  cases readValue (2 * cs.length + 1) cs with
  | none => simp
  | some out =>
    obtain ⟨w,rest⟩ := out
    simp [and_comm,and_assoc]

end DoubleEntry.Json
