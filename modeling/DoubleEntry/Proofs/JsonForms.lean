import DoubleEntry.Proofs.JsonSpellings
import DoubleEntry.Proofs.Timestamps
import DoubleEntry.Json.Books

namespace DoubleEntry

namespace Json
variable {α : Type}

def ofText? (ofJson? : Json → Option α) (text : String) : Option α :=
  (parse text.toList).bind ofJson?

-- The normal form of a text: it is read, and what it says is written again.
def rewritten (toJson : α → Json) (ofJson? : Json → Option α) (text : String) : Option String :=
  (ofText? ofJson? text).map fun a => (toJson a).render

structure Exact (Proper : α → Prop) (toJson : α → Json) (ofJson? : Json → Option α) : Prop where
  plain : ∀ a, (toJson a).Plain
  reread : ∀ a, Proper a → ofJson? (toJson a) = some a
  proper : ∀ v a, ofJson? v = some a → Proper a

structure Lossless (Proper : α → Prop) (toJson : α → Json) (ofJson? : Json → Option α) : Prop where
  reread : ∀ a, Proper a → ofText? ofJson? (toJson a).render = some a
  rereadPretty : ∀ a, Proper a → ofText? ofJson? (toJson a).renderPretty = some a
  proper : ∀ text a, ofText? ofJson? text = some a → Proper a
  stable : ∀ text normal, rewritten toJson ofJson? text = some normal →
    rewritten toJson ofJson? normal = some normal

theorem Exact.lossless {Proper : α → Prop} {toJson : α → Json} {ofJson? : Json → Option α}
    (form : Exact Proper toJson ofJson?) : Lossless Proper toJson ofJson? := by
  have reread : ∀ a, Proper a → ofText? ofJson? (toJson a).render = some a := by
    intro a proper
    rw [ofText?,parse_render (form.plain a),Option.bind_some,form.reread a proper]
  have rereadPretty : ∀ a, Proper a → ofText? ofJson? (toJson a).renderPretty = some a := by
    intro a proper
    rw [ofText?,parse_renderPretty (form.plain a),Option.bind_some,form.reread a proper]
  have proper : ∀ text a, ofText? ofJson? text = some a → Proper a := by
    intro text a read
    obtain ⟨v,_,read⟩ := Option.bind_eq_some_iff.mp read
    exact form.proper v a read
  refine ⟨reread,rereadPretty,proper,?_⟩
  intro text normal made
  obtain ⟨a,read,rfl⟩ := Option.map_eq_some_iff.mp made
  rw [rewritten,reread a (proper text a read),Option.map_some]

section Records
variable {key : String} {fields : List (String × Json)}

theorem occurrences_cons (p : String × Json) :
    occurrences key ((p :: fields).map fun q => (some q.1.toList,q.2)) =
      (if p.1 = key then [p.2] else []) ++
        occurrences key (fields.map fun q => (some q.1.toList,q.2)) := by
  by_cases named : p.1 = key <;> simp [occurrences,named,String.toList_inj]

theorem occurrences_absent (absent : key ∉ fields.map Prod.fst) :
    occurrences key (fields.map fun q => (some q.1.toList,q.2)) = [] := by
  induction fields with
  | nil => rfl
  | cons p fields ih =>
    obtain ⟨other,absent⟩ := not_or.mp (List.mem_cons.not.mp absent)
    rw [occurrences_cons,if_neg (Ne.symm other),ih absent]
    rfl

theorem occurrences_member (distinct : (fields.map Prod.fst).Nodup) {p : String × Json}
    (member : p ∈ fields) :
    occurrences p.1 (fields.map fun q => (some q.1.toList,q.2)) = [p.2] := by
  induction fields with
  | nil => cases member
  | cons q fields ih =>
    obtain ⟨fresh,distinct⟩ := List.nodup_cons.mp distinct
    rw [occurrences_cons]
    rcases List.mem_cons.mp member with rfl | member
    · rw [if_pos rfl,occurrences_absent fresh]
      rfl
    · have other : q.1 ≠ p.1 := fun same => fresh (same ▸ List.mem_map_of_mem member)
      rw [if_neg other,ih distinct member]
      rfl

-- Every field of a record is found under its key, whatever keys are expected.
theorem members_record (keys : List String) {v : Json} (is : v = record fields)
    (distinct : (fields.map Prod.fst).Nodup) :
    ∃ fs, v.members keys = some fs ∧
      ∀ p ∈ fields, required p.1 fs = some p.2 ∧ optional p.1 fs = some p.2 := by
  subst is
  refine ⟨fields.map fun p => (some p.1.toList,p.2),?_,?_⟩
  · have named : (fields.map fun p => (some p.1.toList,p.2)).all (·.1.isSome) = true := by simp
    exact if_pos named
  · intro p member
    rw [required,optional,occurrences_member distinct member]
    exact ⟨rfl,rfl⟩

end Records

section Fields

theorem toInt?_number {n : Int} (fits : Bigint.Fits n) : (number n).toInt? = some n :=
  if_pos fits

theorem fits_of_toInt? {v : Json} {n : Int} (read : v.toInt? = some n) : Bigint.Fits n := by
  unfold toInt? at read
  split at read
  · split at read
    · rename_i fits
      exact Option.some.inj read ▸ fits
    · cases read
  · cases read

theorem toText?_text (s : String) : (text s).toText? = some s := by
  rw [text,toText?,String.ofList_toList]

theorem toInstant?_ofInstant {t : Instant} (proper : t.Proper) :
    (ofInstant t).toInstant? = some t := Instant.read_print proper

theorem proper_of_toInstant? {v : Json} {t : Instant} (read : v.toInstant? = some t) :
    t.Proper := by
  unfold toInstant? at read
  split at read
  · exact Instant.proper_of_read read
  · cases read

theorem toCurrency?_toJson (c : Currency) : c.toJson.toCurrency? = some c := by
  cases c <;> rfl

theorem toTextOrNull?_owner (owner : Option String) :
    (owner.elim null text).toTextOrNull? = some owner := by
  cases owner with
  | none => rfl
  | some s =>
    show (text s).toText?.map some = _
    rw [toText?_text]
    rfl

end Fields
end Json

open Json Bigint

theorem Currency.json_exact : Exact (fun _ => True) Currency.toJson toCurrency? where
  plain := fun _ => rfl
  reread := fun c _ => toCurrency?_toJson c
  proper := fun _ _ _ => trivial

namespace Account

def Proper (a : Account) : Prop := Fits a.id ∧ Fits a.balance ∧ a.createdAt.Proper

theorem json_exact : Exact Proper toJson ofJson? where
  plain := fun a => by simp [toJson,record,Plain,FieldsPlain,text,Currency.toJson,ofInstant]
  reread := by
    intro a proper
    obtain ⟨id,balance,createdAt⟩ := proper
    obtain ⟨fs,members,found⟩ := members_record keys (v := a.toJson) rfl (by simp)
    simp only [List.forall_mem_cons] at found
    simp [ofJson?,members,found,toInt?_number id,toText?_text,toCurrency?_toJson,
      toInt?_number balance,toInstant?_ofInstant createdAt]
  proper := by
    intro v a read
    simp only [ofJson?,Option.bind_eq_bind,Option.bind_eq_some_iff,Option.pure_def,
      Option.some.injEq] at read
    obtain ⟨_,_,_,_,_,id,_,_,_,_,_,_,_,_,_,_,_,balance,_,_,_,createdAt,rfl⟩ := read
    exact ⟨fits_of_toInt? id,fits_of_toInt? balance,proper_of_toInstant? createdAt⟩

end Account

namespace Entry

def Proper (e : Entry) : Prop :=
  Fits e.id ∧ Fits e.account ∧ Fits e.amount ∧ e.createdAt.Proper

theorem json_exact : Exact Proper toJson ofJson? where
  plain := fun e => by simp [toJson,record,Plain,FieldsPlain,ofInstant]
  reread := by
    intro e proper
    obtain ⟨id,account,amount,createdAt⟩ := proper
    obtain ⟨fs,members,found⟩ := members_record keys (v := e.toJson) rfl (by simp)
    simp only [List.forall_mem_cons] at found
    simp [ofJson?,members,found,toInt?_number id,toInt?_number account,toInt?_number amount,
      toInstant?_ofInstant createdAt]
  proper := by
    intro v e read
    simp only [ofJson?,Option.bind_eq_bind,Option.bind_eq_some_iff,Option.pure_def,
      Option.some.injEq] at read
    obtain ⟨_,_,_,_,_,id,_,_,_,account,_,_,_,amount,_,_,_,createdAt,rfl⟩ := read
    exact ⟨fits_of_toInt? id,fits_of_toInt? account,fits_of_toInt? amount,
      proper_of_toInstant? createdAt⟩

end Entry

namespace Transfer

def Proper (t : Transfer) : Prop :=
  Fits t.id ∧ Fits t.source ∧ Fits t.destination ∧ Fits t.amount ∧ t.createdAt.Proper

theorem json_exact : Exact Proper toJson ofJson? where
  plain := fun t => by simp [toJson,record,Plain,FieldsPlain,ofInstant]
  reread := by
    intro t proper
    obtain ⟨id,source,destination,amount,createdAt⟩ := proper
    obtain ⟨fs,members,found⟩ := members_record keys (v := t.toJson) rfl (by simp)
    simp only [List.forall_mem_cons] at found
    simp [ofJson?,members,found,toInt?_number id,toInt?_number source,toInt?_number destination,
      toInt?_number amount,toInstant?_ofInstant createdAt]
  proper := by
    intro v t read
    simp only [ofJson?,Option.bind_eq_bind,Option.bind_eq_some_iff,Option.pure_def,
      Option.some.injEq] at read
    obtain ⟨_,_,_,_,_,id,_,_,_,source,_,_,_,destination,_,_,_,amount,_,_,_,createdAt,rfl⟩ := read
    exact ⟨fits_of_toInt? id,fits_of_toInt? source,fits_of_toInt? destination,
      fits_of_toInt? amount,proper_of_toInstant? createdAt⟩

end Transfer

namespace Receipt

def Proper (r : Receipt) : Prop :=
  r.transfer.Proper ∧ r.debit.Proper ∧ r.credit.Proper ∧ r.source.Proper ∧ r.destination.Proper

theorem json_exact : Exact Proper toJson ofJson? where
  plain := fun r => ⟨rfl,Transfer.json_exact.plain _,rfl,Entry.json_exact.plain _,rfl,
    Entry.json_exact.plain _,rfl,Account.json_exact.plain _,rfl,Account.json_exact.plain _,trivial⟩
  reread := by
    intro r proper
    obtain ⟨transfer,debit,credit,source,destination⟩ := proper
    obtain ⟨fs,members,found⟩ := members_record keys (v := r.toJson) rfl (by simp)
    simp only [List.forall_mem_cons] at found
    simp [ofJson?,members,found,Transfer.json_exact.reread _ transfer,
      Entry.json_exact.reread _ debit,Entry.json_exact.reread _ credit,
      Account.json_exact.reread _ source,Account.json_exact.reread _ destination]
  proper := by
    intro v r read
    simp only [ofJson?,Option.bind_eq_bind,Option.bind_eq_some_iff,Option.pure_def,
      Option.some.injEq] at read
    obtain ⟨_,_,_,_,_,transfer,_,_,_,debit,_,_,_,credit,_,_,_,source,_,_,_,destination,rfl⟩ := read
    exact ⟨Transfer.json_exact.proper _ _ transfer,Entry.json_exact.proper _ _ debit,
      Entry.json_exact.proper _ _ credit,Account.json_exact.proper _ _ source,
      Account.json_exact.proper _ _ destination⟩

end Receipt

namespace TransferRequest

def Proper (r : TransferRequest) : Prop := Fits r.source ∧ Fits r.destination ∧ Fits r.amount

theorem json_exact : Exact Proper toJson ofJson? where
  plain := fun r => by
    cases owner : r.owner <;> simp [toJson,owner,record,Plain,FieldsPlain,text]
  reread := by
    intro r proper
    obtain ⟨source,destination,amount⟩ := proper
    obtain ⟨fs,members,found⟩ := members_record keys (v := r.toJson) rfl (by simp)
    simp only [List.forall_mem_cons] at found
    simp [ofJson?,members,found,toInt?_number source,toInt?_number destination,
      toInt?_number amount,toTextOrNull?_owner]
  proper := by
    intro v r read
    simp only [ofJson?,Option.bind_eq_bind,Option.bind_eq_some_iff,Option.pure_def,
      Option.some.injEq] at read
    obtain ⟨_,_,_,_,_,source,_,_,_,destination,_,_,_,amount,_,_,_,_,rfl⟩ := read
    exact ⟨fits_of_toInt? source,fits_of_toInt? destination,fits_of_toInt? amount⟩

end TransferRequest

-- The instants among the proper values are those that some text denotes.
theorem json_lossless :
    Lossless TransferRequest.Proper TransferRequest.toJson TransferRequest.ofJson? ∧
    Lossless (fun _ => True) Currency.toJson toCurrency? ∧
    Lossless Account.Proper Account.toJson Account.ofJson? ∧
    Lossless Entry.Proper Entry.toJson Entry.ofJson? ∧
    Lossless Transfer.Proper Transfer.toJson Transfer.ofJson? ∧
    Lossless Receipt.Proper Receipt.toJson Receipt.ofJson? ∧
    ∀ t : Instant, t.Proper ↔ ∃ cs, Instant.read cs = some t :=
  ⟨TransferRequest.json_exact.lossless,Currency.json_exact.lossless,Account.json_exact.lossless,
    Entry.json_exact.lossless,Transfer.json_exact.lossless,Receipt.json_exact.lossless,
    fun _ => Instant.readable_iff.symm⟩

-- The ends of the range, an owner of characters that must be escaped and a second 60; a request
-- without the names of its fields.
theorem json_lossless_extremes :
    ofText? Account.ofJson?
        (Account.toJson ⟨least,"\"\\\n\x00",.rub,greatest,⟨59,1999999999⟩⟩).render =
      some ⟨least,"\"\\\n\x00",.rub,greatest,⟨59,1999999999⟩⟩ ∧
    ∃ normal, rewritten TransferRequest.toJson TransferRequest.ofJson?
        " [1,2,3,\"\\u0041\\/\"]" = some normal ∧
      rewritten TransferRequest.toJson TransferRequest.ofJson? normal = some normal := by
  obtain ⟨request,-,account,-⟩ := json_lossless
  have accepted : rewritten TransferRequest.toJson TransferRequest.ofJson?
      " [1,2,3,\"\\u0041\\/\"]" =
        some (TransferRequest.toJson ⟨⟨1,2,3⟩,some "A/"⟩).render := by
    decide +kernel
  have proper : Account.Proper ⟨least,"\"\\\n\x00",.rub,greatest,⟨59,1999999999⟩⟩ :=
    ⟨by decide,by decide,by decide⟩
  exact ⟨account.reread _ proper,_,accepted,request.stable _ _ accepted⟩

end DoubleEntry
