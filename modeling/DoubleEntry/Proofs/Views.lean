import DoubleEntry.Ledger.Transaction
import DoubleEntry.Proofs.Seats

namespace DoubleEntry

structure Books where
  accounts : List Account
  entries : List Entry
  transfers : List Transfer
deriving DecidableEq, Repr

namespace Ledger
variable {l l' : Ledger} {tx : TxId} {id : AccountId}

def books (l : Ledger) : Books := ⟨l.rows.map Row.account,l.entries,l.transfers⟩

def draft? (l : Ledger) (tx : TxId) (id : AccountId) : Option Account :=
  (l.tx? tx).bind (·.account? id)

def Holds (l : Ledger) (tx : TxId) (id : AccountId) : Prop :=
  ∃ r, l.row? id = some r ∧ r.holder = some tx

def Seated (l : Ledger) (tx : TxId) (id : AccountId) : Prop :=
  ∃ r, l.row? id = some r ∧ tx ∈ r.seats

def Live (l : Ledger) (tx : TxId) : Prop := ∃ t, l.tx? tx = some t

theorem Holds.seated (held : Holds l tx id) : Seated l tx id := by
  obtain ⟨r,found,holder⟩ := held
  exact ⟨r,found,Row.mem_seats.mpr (.inl holder)⟩

theorem holds_iff : l.holds tx id = true ↔ Holds l tx id := by
  unfold holds Holds
  cases l.row? id <;> simp

theorem id_of_row? (found : l.row? id = some r) : r.id = id := by
  simpa using List.find?_some found

theorem mem_of_row? (found : l.row? id = some r) : r ∈ l.rows :=
  List.mem_of_find?_eq_some found

theorem id_of_account? (found : l.account? id = some a) : a.id = id := by
  obtain ⟨r,row,rfl⟩ := Option.map_eq_some_iff.mp found
  exact id_of_row? row

theorem id_of_draft? (seen : l.draft? tx id = some a) : a.id = id := by
  obtain ⟨t,_,found⟩ := Option.bind_eq_some_iff.mp seen
  simpa using List.find?_some found

theorem id_of_version? (seen : l.version? tx id = some a) : a.id = id := by
  unfold version? at seen
  rcases Option.or_eq_some_iff.mp seen with draft | ⟨_,committed⟩
  · exact id_of_draft? draft
  · exact id_of_account? committed

theorem account?_of_row? (found : l.row? id = some r) :
    l.account? id = some r.account := by
  simp [account?,found]

theorem account?_of_rows (rows : l'.rows = l.rows) (id : AccountId) :
    l'.account? id = l.account? id := by
  simp only [account?,row?,rows]

theorem draft?_of_tx? (same : l'.tx? tx = l.tx? tx) (id : AccountId) :
    l'.draft? tx id = l.draft? tx id := by
  simp only [draft?,same]

section Rows

theorem row?_map {f : Row → Row} (rows : l'.rows = l.rows.map f)
    (same : ∀ r, (f r).id = r.id) (id : AccountId) : l'.row? id = (l.row? id).map f := by
  unfold row?
  rw [rows,List.find?_map]
  have alike : ((fun r : Row => decide (r.id = id)) ∘ f) = fun r => decide (r.id = id) := by
    funext r
    simp [same r]
  rw [alike]

def onRow (id : AccountId) (f : Row → Row) (r : Row) : Row := if r.id = id then f r else r

theorem rows_updateRow (l : Ledger) (id : AccountId) (f : Row → Row) :
    (l.updateRow id f).rows = l.rows.map (onRow id f) := rfl

theorem id_onRow {f : Row → Row} (same : ∀ r, (f r).id = r.id) (id : AccountId) (r : Row) :
    (onRow id f r).id = r.id := by
  unfold onRow
  split
  · exact same r
  · rfl

theorem row?_updateRow {f : Row → Row} (same : ∀ r, (f r).id = r.id) (l : Ledger)
    (id seen : AccountId) : (l.updateRow id f).row? seen = (l.row? seen).map (onRow id f) :=
  row?_map (rows_updateRow l id f) (id_onRow same id) seen

theorem onRow_self {f : Row → Row} (found : l.row? id = some r) : onRow id f r = f r := by
  unfold onRow
  rw [id_of_row? found,if_pos rfl]

theorem onRow_ne {f : Row → Row} (other : seen ≠ id) (found : l.row? seen = some r) :
    onRow id f r = r := by
  unfold onRow
  rw [id_of_row? found,if_neg other]

theorem account?_updateRow {f : Row → Row} (same : ∀ r, (f r).account = r.account) (l : Ledger)
    (id seen : AccountId) : (l.updateRow id f).account? seen = l.account? seen := by
  have named : ∀ r, (f r).id = r.id := fun r => congrArg Account.id (same r)
  simp only [account?,row?_updateRow named,Option.map_map]
  congr 1
  funext r
  unfold onRow
  simp only [Function.comp_apply]
  split
  · exact same r
  · rfl

theorem row?_append (rows : l'.rows = l.rows ++ [new]) (id : AccountId) :
    l'.row? id = (l.row? id).or (if new.id = id then some new else none) := by
  unfold row?
  rw [rows,List.find?_append]
  by_cases here : new.id = id <;> simp [here]

theorem row?_append_cases (rows : l'.rows = l.rows ++ [new]) (found : l'.row? id = some r) :
    l.row? id = some r ∨ l.row? id = none ∧ r = new := by
  rw [row?_append rows] at found
  cases before : l.row? id with
  | some old =>
    rw [before,Option.some_or] at found
    exact .inl found
  | none =>
    rw [before,Option.none_or] at found
    split at found
    · exact .inr ⟨rfl,(Option.some.inj found).symm⟩
    · cases found

end Rows

section Transactions

theorem tx?_updateTx_self {f : Tx → Tx} (same : ∀ t, (f t).id = t.id)
    (found : l.tx? tx = some t) : (l.updateTx tx f).tx? tx = some (f t) := by
  unfold tx? at found ⊢
  have alike : ((fun t : Tx => decide (t.id = tx)) ∘ fun t => if t.id = tx then f t else t) =
      fun t => decide (t.id = tx) := by
    funext t
    by_cases here : t.id = tx <;> simp [here,same]
  have here : t.id = tx := by simpa using List.find?_some found
  simp only [updateTx,List.find?_map,alike,found,Option.map_some,here,if_true]

theorem tx?_updateTx_ne {f : Tx → Tx} (same : ∀ t, (f t).id = t.id)
    (other : seen ≠ tx) : (l.updateTx tx f).tx? seen = l.tx? seen := by
  unfold tx?
  have alike : ((fun t : Tx => decide (t.id = seen)) ∘ fun t => if t.id = tx then f t else t) =
      fun t => decide (t.id = seen) := by
    funext t
    by_cases here : t.id = tx <;> simp [here,same]
  simp only [updateTx,List.find?_map,alike]
  cases found : l.live.find? (fun t => decide (t.id = seen)) with
  | none => rfl
  | some t =>
    have here : t.id = seen := by simpa using List.find?_some found
    simp [here,other]

theorem live_updateTx {f : Tx → Tx} (same : ∀ t, (f t).id = t.id) :
    (l.updateTx tx f).Live seen ↔ l.Live seen := by
  by_cases here : seen = tx
  · subst here
    constructor
    · rintro ⟨t',found⟩
      cases before : l.tx? seen with
      | none =>
        have absent : (l.updateTx seen f).tx? seen = none := by
          unfold tx? at before ⊢
          simp only [updateTx,List.find?_map,Option.map_eq_none_iff]
          rw [List.find?_eq_none] at before ⊢
          intro t member
          have foreign := before t member
          simp only [decide_eq_true_eq] at foreign
          simp [foreign]
        rw [absent] at found
        cases found
      | some t => exact ⟨t,before⟩
    · rintro ⟨t,found⟩
      exact ⟨f t,tx?_updateTx_self same found⟩
  · simp only [Live,tx?_updateTx_ne same here]

theorem tx?_discard_self (l : Ledger) (tx : TxId) : (l.discard tx).tx? tx = none := by
  unfold tx? discard
  rw [List.find?_eq_none]
  intro t member
  have kept := (List.mem_filter.mp member).2
  simpa using kept

theorem tx?_discard_ne (l : Ledger) (other : seen ≠ tx) :
    (l.discard tx).tx? seen = l.tx? seen := by
  unfold tx? discard
  rw [List.find?_filter]
  congr 1
  funext t
  by_cases here : t.id = seen <;> simp [here,other]

theorem tx?_append (live : l'.live = l.live ++ [new]) (tx : TxId) :
    l'.tx? tx = (l.tx? tx).or (if new.id = tx then some new else none) := by
  unfold tx?
  rw [live,List.find?_append]
  by_cases here : new.id = tx <;> simp [here]

theorem tx?_of_live (live : l'.live = l.live) (tx : TxId) :
    l'.tx? tx = l.tx? tx := by
  simp only [tx?,live]

end Transactions

section Committing

theorem id_version (t : Tx) (r : Row) : ((t.account? r.id).getD r.account).id = r.id := by
  cases found : t.account? r.id with
  | none => rfl
  | some a => simpa [Tx.account?] using List.find?_some found

def posted (t : Tx) (r : Row) : Row := { r with account := (t.account? r.id).getD r.account }

theorem rows_apply (l : Ledger) (t : Tx) : (l.apply t).rows = l.rows.map (posted t) := rfl

theorem id_posted (t : Tx) (r : Row) : (posted t r).id = r.id := id_version t r

theorem books_discard (l : Ledger) (tx : TxId) : (l.discard tx).books = l.books := by
  have accounts : (l.rows.map (Row.release tx)).map Row.account = l.rows.map Row.account := by
    rw [List.map_map]
    exact List.map_congr_left fun r _ => Row.account_release tx r
  simp only [books,discard,accounts]

theorem books_leaveQueues (l : Ledger) (tx : TxId) : (l.leaveQueues tx).books = l.books := by
  have accounts : (l.rows.map (Row.leave tx)).map Row.account = l.rows.map Row.account := by
    rw [List.map_map]
    exact List.map_congr_left fun r _ => Row.account_leave tx r
  simp only [books,leaveQueues,accounts]

theorem books_updateRow (l : Ledger) (id : AccountId) {f : Row → Row}
    (same : ∀ r, (f r).account = r.account) : (l.updateRow id f).books = l.books := by
  have accounts : ((l.updateRow id f).rows).map Row.account = l.rows.map Row.account := by
    rw [rows_updateRow,List.map_map]
    refine List.map_congr_left fun r _ => ?_
    simp only [Function.comp_apply,onRow]
    split
    · exact same r
    · rfl
  simp only [books,accounts]
  rfl

end Committing
end Ledger
end DoubleEntry
