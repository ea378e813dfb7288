import DoubleEntry.Proofs.Dealings
import DoubleEntry.Proofs.Failures
import DoubleEntry.Proofs.Grants
import DoubleEntry.Proofs.SingleClient

namespace DoubleEntry

namespace Ledger
variable {l : Ledger} {m : Movement} {now : Nat}

-- The ledger after a transaction that has numbered so many rows and was undone.
def undone (l : Ledger) (transfers entries : Nat) : Ledger :=
  { l with
    transferSeq := l.transferSeq + transfers
    entrySeq := l.entrySeq + entries
    begun := l.begun + 1
    rolledBack := l.rolledBack + 1 }

-- An armed failure goes off at a step, once, and leaves the ledger so.
def strikes (l : Ledger) (p : FaultPoint) (step : TransferStep) (left : Ledger → Ledger) :
    Option (TransferError × Ledger) :=
  (l.fault? p).map fun e => (.store step e,left (l.disarm p))

def lacks (l : Ledger) (id : AccountId) : Option (TransferError × Ledger) :=
  if (l.account? id).isNone then
    some (.store .insertTransfer
      (.constraint ("transfers references missing account " ++ toString id)),l.undone 0 0)
  else none

def overflows (l : Ledger) (m : Movement) (id : AccountId) : Option (TransferError × Ledger) :=
  (l.account? id).bind fun a =>
    if Bigint.Fits (a.balance + m.change id) then none
    else some (.store (.updateBalance id)
      (.constraint ("balance out of range for account " ++ toString id)),l.undone 1 2)

def obstacles (l : Ledger) (m : Movement) : List (Option (TransferError × Ledger)) :=
  [if m.source = m.destination then some (.sameAccount m.source,l) else none,
    if m.amount ≤ 0 then some (.invalidAmount m.amount,l) else none,
    l.strikes .begin .begin id,
    l.strikes .insertTransfer .insertTransfer (·.undone 0 0),
    l.lacks m.source,l.lacks m.destination,
    l.strikes .insertEntry .insertDebitEntry (·.undone 1 0),
    l.strikes .addToBalance (.updateBalance m.lower) (·.undone 1 2),
    l.overflows m m.lower,l.overflows m m.higher,
    l.strikes .commit .commit (·.undone 1 2)]

def receipt (l : Ledger) (now : Nat) (m : Movement) (source destination : Account) : Receipt where
  transfer := ⟨l.transferSeq + 1,m.source,m.destination,m.amount,.ofMillis now⟩
  debit := ⟨l.entrySeq + 1,m.source,-m.amount,.ofMillis now⟩
  credit := ⟨l.entrySeq + 2,m.destination,m.amount,.ofMillis now⟩
  source := { source with balance := source.balance - m.amount }
  destination := { destination with balance := destination.balance + m.amount }

def entered (l : Ledger) (r : Receipt) : Ledger :=
  { l with
    rows := l.rows.map fun row =>
      if row.id = r.transfer.source then { row with account := r.source }
      else if row.id = r.transfer.destination then { row with account := r.destination }
      else row
    entries := l.entries ++ [r.debit,r.credit]
    transfers := l.transfers ++ [r.transfer]
    transferSeq := l.transferSeq + 1
    entrySeq := l.entrySeq + 2
    begun := l.begun + 1
    committed := l.committed + 1 }

-- Where nothing stands in the way of a transfer, the acknowledgement of its commit can still be lost.
def submitted (l : Ledger) (r : Receipt) : Outcome × Ledger :=
  match l.fault? .commitAcknowledgement with
  | some e => (.error (.store .commit e),(l.entered r).disarm .commitAcknowledgement)
  | none => (.ok r,l.entered r)

-- The first obstacle that applies decides.
def firstOf (obstacles : List (Option (TransferError × Ledger))) (otherwise : Outcome × Ledger) :
    Outcome × Ledger :=
  match obstacles.findSome? id with
  | some (e,left) => (.error e,left)
  | none => otherwise

-- What becomes of the transfer if nobody else acts meanwhile. Without obstacles both accounts exist.
def foreseen (l : Ledger) (now : Nat) (m : Movement) : Outcome × Ledger :=
  firstOf (l.obstacles m) (l.submitted (l.receipt now m ((l.account? m.source).getD default)
    ((l.account? m.destination).getD default)))

theorem strikes_armed {p : FaultPoint} {e : StoreError} (armed : l.fault? p = some e)
    (step : TransferStep) (left : Ledger → Ledger) :
    l.strikes p step left = some (.store step e,left (l.disarm p)) := by
  rw [strikes,armed,Option.map_some]

theorem strikes_unarmed {p : FaultPoint} (unarmed : l.fault? p = none) (step : TransferStep)
    (left : Ledger → Ledger) : l.strikes p step left = none := by
  rw [strikes,unarmed,Option.map_none]

theorem lacks_missing {id : AccountId} (missing : l.account? id = none) :
    l.lacks id = some (.store .insertTransfer
      (.constraint ("transfers references missing account " ++ toString id)),l.undone 0 0) := by
  rw [lacks,missing]
  rfl

theorem lacks_found {id : AccountId} {a : Account} (found : l.account? id = some a) :
    l.lacks id = none := by
  rw [lacks,found]
  rfl

theorem overflows_borne {id : AccountId} {a : Account} (found : l.account? id = some a)
    (fits : Bigint.Fits (a.balance + m.change id)) : l.overflows m id = none := by
  rw [overflows,found]
  exact if_pos fits

theorem overflows_unborne {id : AccountId} {a : Account} (found : l.account? id = some a)
    (unfit : ¬Bigint.Fits (a.balance + m.change id)) :
    l.overflows m id = some (.store (.updateBalance id)
      (.constraint ("balance out of range for account " ++ toString id)),l.undone 1 2) := by
  rw [overflows,found]
  exact if_neg unfit

theorem firstOf_some (e : TransferError) (left : Ledger)
    (rest : List (Option (TransferError × Ledger))) (otherwise : Outcome × Ledger) :
    firstOf (some (e,left) :: rest) otherwise = (.error e,left) := rfl

theorem firstOf_none (rest : List (Option (TransferError × Ledger)))
    (otherwise : Outcome × Ledger) : firstOf (none :: rest) otherwise = firstOf rest otherwise := rfl

def seize (l : Ledger) (held : List AccountId) (r : Row) : Row :=
  if r.id ∈ held then { r with holder := some l.nextTx } else r

-- The ledger with the next transaction open on it, after so many numbered rows.
def amid (l : Ledger) (t : Tx) (held : List AccountId) (transfers entries : Nat) : Ledger :=
  { l with
    rows := l.rows.map (l.seize held)
    live := l.live ++ [t]
    transferSeq := l.transferSeq + transfers
    entrySeq := l.entrySeq + entries
    begun := l.begun + 1 }

section Amid
variable {t : Tx} {held : List AccountId} {id : AccountId} {i k : Nat} {r : Row}

theorem id_seize (held : List AccountId) (r : Row) : (l.seize held r).id = r.id := by
  unfold seize
  split <;> rfl

theorem account_seize (held : List AccountId) (r : Row) :
    (l.seize held r).account = r.account := by
  unfold seize
  split <;> rfl

theorem unseated_nextTx (sound : l.Sound) (member : r ∈ l.rows) : l.nextTx ∉ r.seats := by
  intro seated
  exact not_live_nextTx sound (sound.seated r.id _ ⟨r,sound.row?_id member,seated⟩)

-- When the transaction goes, the rows are as they were.
theorem release_seize (sound : l.Sound) (free : ∀ id ∈ held, l.Free id) (member : r ∈ l.rows) :
    (l.seize held r).release l.nextTx = r := by
  have found := sound.row?_id member
  unfold seize
  split
  · rename_i mine
    have vacant := holder_of_free (free _ mine) found
    have empty := (sound.orderly _ _ found).vacant vacant
    cases r
    simp_all [Row.release]
  · have absent := unseated_nextTx sound member
    rw [Row.mem_seats,not_or] at absent
    have kept : r.queue.filter (· ≠ l.nextTx) = r.queue := by
      rw [List.filter_eq_self]
      intro tx queued
      have different : tx ≠ l.nextTx := fun same => absent.2 (same ▸ queued)
      simpa using different
    rw [Row.release,if_neg absent.1,Row.leave,kept]

theorem account?_amid (l : Ledger) (t : Tx) (held : List AccountId) (i k : Nat) (id : AccountId) :
    (l.amid t held i k).account? id = l.account? id := by
  have rows : (l.amid t held i k).rows = l.rows.map (l.seize held) := rfl
  simp only [account?,row?_map rows (id_seize held),Option.map_map]
  congr 1
  funext r
  exact account_seize held r

theorem others_named (sound : l.Sound) {t' : Tx} (member : t' ∈ l.live) : t'.id ≠ l.nextTx := by
  intro same
  refine not_live_nextTx sound (Option.isSome_iff_exists.mp ?_)
  rw [tx?,List.find?_isSome]
  exact ⟨t',member,by simpa using same⟩

theorem tx?_amid (sound : l.Sound) (named : t.id = l.nextTx) :
    (l.amid t held i k).tx? l.nextTx = some t := by
  have nobody : l.tx? l.nextTx = none := by
    cases found : l.tx? l.nextTx with
    | none => rfl
    | some t' => exact absurd ⟨t',found⟩ (not_live_nextTx sound)
  have live : (l.amid t held i k).live = l.live ++ [t] := rfl
  rw [tx?_append live,nobody,Option.none_or,if_pos named]

theorem updateTx_amid (sound : l.Sound) (named : t.id = l.nextTx) (f : Tx → Tx) :
    (l.amid t held i k).updateTx l.nextTx f = l.amid (f t) held i k := by
  have others : (l.live.map fun t => if t.id = l.nextTx then f t else t) = l.live := by
    conv => rhs; rw [← List.map_id l.live]
    refine List.map_congr_left fun t' member => ?_
    exact if_neg (others_named sound member)
  simp only [updateTx,amid,List.map_append,others,List.map_singleton,if_pos named]

theorem discard_amid (sound : l.Sound) (named : t.id = l.nextTx)
    (free : ∀ id ∈ held, l.Free id) :
    (l.amid t held i k).discard l.nextTx =
      { l with
        transferSeq := l.transferSeq + i
        entrySeq := l.entrySeq + k
        begun := l.begun + 1 } := by
  have others : (l.live ++ [t]).filter (·.id ≠ l.nextTx) = l.live := by
    rw [List.filter_append,List.filter_eq_self.mpr fun t' member => ?_]
    · simp [named]
    · simpa using others_named sound member
  have rows : (l.rows.map (l.seize held)).map (Row.release l.nextTx) = l.rows := by
    rw [List.map_map]
    conv => rhs; rw [← List.map_id l.rows]
    exact List.map_congr_left fun r member => release_seize sound free member
  simp only [discard,amid,others,rows]

theorem rollback_amid (sound : l.Sound) (named : t.id = l.nextTx)
    (free : ∀ id ∈ held, l.Free id) :
    (l.amid t held i k).rollback l.nextTx = l.undone i k := by
  rw [rollback,discard_amid sound named free]
  rfl

theorem release_posted (t : Tx) (tx : TxId) (r : Row) :
    (posted t r).release tx = posted t (r.release tx) := by
  by_cases held : r.holder = some tx
  · have held' : (posted t r).holder = some tx := held
    rw [Row.release,Row.release,if_pos held,if_pos held']
    rfl
  · have held' : (posted t r).holder ≠ some tx := held
    rw [Row.release,Row.release,if_neg held,if_neg held']
    rfl

-- A commit writes what the transaction has drafted, and nothing else of it stays.
theorem discard_apply (sound : l.Sound) (named : t.id = l.nextTx)
    (free : ∀ id ∈ held, l.Free id) :
    ((l.amid t held i k).apply t).discard l.nextTx =
      { l with
        rows := l.rows.map (posted t)
        entries := l.entries ++ t.entries
        transfers := l.transfers ++ t.transfers
        transferSeq := l.transferSeq + i
        entrySeq := l.entrySeq + k
        begun := l.begun + 1
        committed := l.committed + 1 } := by
  have dropped := discard_amid (i := i) (k := k) sound named free
  have live := congrArg Ledger.live dropped
  have rows : ((l.amid t held i k).apply t).rows.map (Row.release l.nextTx) =
      l.rows.map (posted t) := by
    rw [rows_apply,List.map_map]
    change ((l.rows.map (l.seize held)).map _) = _
    rw [List.map_map]
    refine List.map_congr_left fun r member => ?_
    simp only [Function.comp_apply,release_posted,release_seize sound free member]
  simp only [discard,rows]
  simp only [discard] at live
  simp only [apply,amid] at live ⊢
  rw [live]

end Amid

section Calls
variable {held : List AccountId} {t : Tx} {i k : Nat}

theorem start_begin (unarmed : l.fault? .begin = none) (tx : TxId) :
    l.start now tx .begin = (l.amid ⟨l.nextTx,[],[],[]⟩ [] 0 0,.answered (.ok ())) := by
  have rows : l.rows.map (l.seize []) = l.rows := by
    conv => rhs; rw [← List.map_id l.rows]
    exact List.map_congr_left fun r _ => if_neg List.not_mem_nil
  simp only [start,begin,guarded_open unarmed,amid,rows]
  rfl

theorem start_commit (prompt : l.commitDelay = none) (tx : TxId) :
    l.start now tx .commit = ((l.commit tx).1,.answered (l.commit tx).2) := by
  simp only [start,prompt]

theorem admissible (different : m.source ≠ m.destination) (positive : 0 < m.amount) :
    ¬(m.amount ≤ 0 ∨ m.source = m.destination) := by
  rintro (nothing | same)
  · omega
  · exact different same

theorem insertTransfer_amid {a b : Account} (sound : l.Sound) (named : t.id = l.nextTx)
    (unarmed : l.fault? .insertTransfer = none) (different : m.source ≠ m.destination)
    (positive : 0 < m.amount) (source : l.account? m.source = some a)
    (destination : l.account? m.destination = some b) :
    let row : Transfer :=
      ⟨↑(l.transferSeq + i) + 1,m.source,m.destination,m.amount,.ofMillis now⟩
    (l.amid t held i k).start now l.nextTx (.insertTransfer m.source m.destination m.amount) =
      (l.amid { t with transfers := t.transfers ++ [row] } held (i + 1) k,.answered (.ok row)) := by
  have valid := admissible different positive
  have unarmed' : (l.amid t held i k).fault? .insertTransfer = none := unarmed
  simp only [start,insertTransfer,guarded_open unarmed',if_neg valid,List.find?_cons,
    account?_amid,source,destination,Option.isNone_some,List.find?_nil,
    updateTx_amid sound named]
  rfl

theorem insertTransfer_lacking {id : AccountId} (unarmed : l.fault? .insertTransfer = none)
    (different : m.source ≠ m.destination) (positive : 0 < m.amount)
    (first : ([m.source,m.destination].find? fun id => (l.account? id).isNone) = some id) :
    (l.amid t held i k).start now l.nextTx (.insertTransfer m.source m.destination m.amount) =
      (l.amid t held i k,.answered (.error
        (.constraint ("transfers references missing account " ++ toString id)))) := by
  have valid := admissible different positive
  have unarmed' : (l.amid t held i k).fault? .insertTransfer = none := unarmed
  simp only [start,insertTransfer,guarded_open unarmed',if_neg valid,account?_amid,first]

theorem insertEntry_amid {a : Account} {id : AccountId} {amount : Int} (sound : l.Sound)
    (named : t.id = l.nextTx) (unarmed : l.fault? .insertEntry = none)
    (found : l.account? id = some a) :
    let row : Entry := ⟨↑(l.entrySeq + k) + 1,id,amount,.ofMillis now⟩
    (l.amid t held i k).start now l.nextTx (.insertEntry id amount) =
      (l.amid { t with entries := t.entries ++ [row] } held i (k + 1),.answered (.ok row)) := by
  have unarmed' : (l.amid t held i k).fault? .insertEntry = none := unarmed
  simp only [start,insertEntry,guarded_open unarmed',account?_amid,found,Option.isNone_some,
    Bool.false_eq_true,if_false,updateTx_amid sound named]
  rfl

theorem request_amid (sound : l.Sound) {id : AccountId} (free : l.Free id) (new : id ∉ held) :
    (l.amid t held i k).updateRow id (Row.request l.nextTx) = l.amid t (id :: held) i k := by
  have rows : (l.rows.map (l.seize held)).map (onRow id (Row.request l.nextTx)) =
      l.rows.map (l.seize (id :: held)) := by
    rw [List.map_map]
    refine List.map_congr_left fun r member => ?_
    rw [Function.comp_apply,onRow,id_seize]
    by_cases here : r.id = id
    · subst here
      have vacant := holder_of_free free (sound.row?_id member)
      simp [seize,new,Row.request,vacant]
    · simp [seize,here]
  have same : (l.amid t held i k).updateRow id (Row.request l.nextTx) =
      { l.amid t held i k with
        rows := (l.rows.map (l.seize held)).map (onRow id (Row.request l.nextTx)) } := rfl
  rw [same,rows]
  rfl

theorem addToBalance_amid {id : AccountId} {a : Account} (sound : l.Sound)
    (named : t.id = l.nextTx) (unarmed : l.fault? .addToBalance = none)
    (prompt : l.lockHold = none) (free : l.Free id) (new : id ∉ held)
    (undrafted : t.account? id = none) (found : l.account? id = some a) :
    (l.amid t held i k).start now l.nextTx (.addToBalance id (m.change id)) =
      if Bigint.Fits (a.balance + m.change id) then
        (l.amid (t.put (m.shift a)) (id :: held) i k,.answered (.ok (m.shift a)))
      else
        (l.amid t (id :: held) i k,.answered (.error
          (.constraint ("balance out of range for account " ++ toString id)))) := by
  have unarmed' : (l.amid t held i k).fault? .addToBalance = none := unarmed
  have shifted : m.shift a = { a with balance := a.balance + m.change id } := by
    rw [Movement.shift,id_of_account? found]
  rw [shifted]
  obtain ⟨r,there,rfl⟩ := Option.map_eq_some_iff.mp found
  have vacant := holder_of_free free there
  have row : (l.amid t held i k).row? id = some r := by
    have same : l.seize held r = r := if_neg (id_of_row? there ▸ new)
    rw [row?_map (l := l) rfl (id_seize held),there,Option.map_some,same]
  have seen : (l.amid t (id :: held) i k).version? l.nextTx id = some r.account := by
    rw [version?,tx?_amid sound named,Option.bind_some,undrafted,Option.none_or,account?_amid,found]
  have patient : (l.amid t (id :: held) i k).lockHold = none := prompt
  simp only [start,requestRow,guarded_open unarmed',row,vacant,request_amid sound free new,
    reduceCtorEq,if_false,if_true,hold,patient,applyDelta,seen]
  by_cases fits : Bigint.Fits (r.account.balance + m.change id)
  · simp only [Bigint.add?,if_pos fits,updateTx_amid sound named]
  · simp only [Bigint.add?,if_neg fits]

end Calls

section Receipts
variable {a b x y : Account}

-- The two accounts of a movement, and the same two in the order of their updates.
structure Knows (l : Ledger) (m : Movement) (a b x y : Account) : Prop where
  different : m.source ≠ m.destination
  source : l.account? m.source = some a
  destination : l.account? m.destination = some b
  lower : l.account? m.lower = some x
  higher : l.account? m.higher = some y

theorem knows_of_found (different : m.source ≠ m.destination) (source : l.account? m.source = some a)
    (destination : l.account? m.destination = some b) : ∃ x y, l.Knows m a b x y := by
  rcases m.lower_cases with ⟨first,second⟩ | ⟨first,second⟩
  · exact ⟨a,b,different,source,destination,first ▸ source,second ▸ destination⟩
  · exact ⟨b,a,different,source,destination,first ▸ destination,second ▸ source⟩

theorem Knows.sides (knows : l.Knows m a b x y) : x = a ∧ y = b ∨ x = b ∧ y = a := by
  have lower := knows.lower
  have higher := knows.higher
  rcases m.lower_cases with ⟨first,second⟩ | ⟨first,second⟩ <;> rw [first] at lower <;>
    rw [second] at higher
  · exact .inl ⟨Option.some.inj (lower.symm.trans knows.source),
      Option.some.inj (higher.symm.trans knows.destination)⟩
  · exact .inr ⟨Option.some.inj (lower.symm.trans knows.destination),
      Option.some.inj (higher.symm.trans knows.source)⟩

theorem Knows.shift_source (knows : l.Knows m a b x y) :
    m.shift a = { a with balance := a.balance - m.amount } := by
  have named : a.id = m.source := id_of_account? knows.source
  simp [Movement.shift,Movement.change,named,knows.different,Int.sub_eq_add_neg]

theorem Knows.shift_destination (knows : l.Knows m a b x y) :
    m.shift b = { b with balance := b.balance + m.amount } := by
  have named : b.id = m.destination := id_of_account? knows.destination
  simp [Movement.shift,Movement.change,named,Ne.symm knows.different]

theorem Knows.receipt (knows : l.Knows m a b x y) (now : Nat) :
    let r := l.receipt now m a b
    Phase.receipt m r.transfer r.debit r.credit (m.shift x) (m.shift y) = r := by
  have mine := id_of_account? knows.source
  have theirs := id_of_account? knows.destination
  have apart : b.id ≠ m.source := fun same => knows.different (same.symm.trans theirs)
  unfold Phase.receipt Ledger.receipt
  rw [← knows.shift_source,← knows.shift_destination]
  rcases knows.sides with ⟨rfl,rfl⟩ | ⟨rfl,rfl⟩
  · exact if_pos mine
  · exact if_neg apart

theorem Knows.drafts (knows : l.Knows m a b x y) {t : Tx}
    (accounts : t.accounts = [m.shift y,m.shift x]) (id : AccountId) :
    t.account? id =
      if id = m.source then some (m.shift a)
      else if id = m.destination then some (m.shift b) else none := by
  have different := knows.different
  have mine : a.id = m.source := id_of_account? knows.source
  have theirs : b.id = m.destination := id_of_account? knows.destination
  have shifted : ∀ a, (m.shift a).id = a.id := fun _ => rfl
  rw [Tx.account?,accounts]
  by_cases here : id = m.source
  · subst here
    rcases knows.sides with ⟨rfl,rfl⟩ | ⟨rfl,rfl⟩ <;>
      simp [shifted,mine,theirs,Ne.symm different]
  · by_cases there : id = m.destination
    · subst there
      rcases knows.sides with ⟨rfl,rfl⟩ | ⟨rfl,rfl⟩ <;> simp [shifted,mine,theirs,different,here]
    · rcases knows.sides with ⟨rfl,rfl⟩ | ⟨rfl,rfl⟩ <;>
        simp [shifted,mine,theirs,here,there,Ne.symm here,Ne.symm there]

theorem Knows.commit_amid (knows : l.Knows m a b x y) (sound : l.Sound)
    (free : ∀ id ∈ [m.higher,m.lower], l.Free id) (unarmed : l.fault? .commit = none) (now : Nat) :
    let r := l.receipt now m a b
    (l.amid ⟨l.nextTx,[m.shift y,m.shift x],[r.debit,r.credit],[r.transfer]⟩ [m.higher,m.lower]
        1 2).commit l.nextTx =
      (l.entered r).guarded .commitAcknowledgement (l.entered r,.ok ()) := by
  intro r
  let t : Tx := ⟨l.nextTx,[m.shift y,m.shift x],[r.debit,r.credit],[r.transfer]⟩
  change (l.amid t [m.higher,m.lower] 1 2).commit l.nextTx = _
  have unarmed' : (l.amid t [m.higher,m.lower] 1 2).fault? .commit = none := unarmed
  have written : ((l.amid t [m.higher,m.lower] 1 2).apply t).discard l.nextTx = l.entered r := by
    have rows : l.rows.map (posted t) = (l.entered r).rows := by
      refine List.map_congr_left fun row _ => ?_
      rw [posted,knows.drafts rfl,knows.shift_source,knows.shift_destination]
      by_cases here : row.id = m.source
      · rw [if_pos here]
        exact (if_pos here).symm
      · by_cases there : row.id = m.destination
        · rw [if_neg here,if_pos there]
          exact ((if_neg here).trans (if_pos there)).symm
        · rw [if_neg here,if_neg there]
          exact ((if_neg here).trans (if_neg there)).symm
    rw [discard_apply sound rfl free,rows]
    rfl
  rw [commit,unarmed',tx?_amid sound rfl]
  dsimp only
  rw [written]

end Receipts

end Ledger

-- A transfer at this phase comes to this outcome and this ledger, if no other job makes a step.
def JobPlan.Arrives (plan : JobPlan) (now : Nat) (l : Ledger) (tx : Option TxId) (p : Phase)
    (result : Outcome × Ledger) : Prop :=
  ∀ j d, j.plan = plan → j.stage = .running 0 tx d p none →
    ∃ j', Job.Reaches now (l,j) (result.2,j') ∧ j'.stage = .finished result.1 now

section Arriving
variable {plan : JobPlan} {now : Nat} {l l' : Ledger} {tx : Option TxId} {p : Phase} {call : Call}
  {result : Outcome × Ledger}

theorem arrives_ended (once : plan.retry = none) (outcome : Outcome) :
    plan.Arrives now l tx (.ended outcome) (outcome,l) := by
  rintro j d rfl stage
  exact ⟨_,.single (Job.step_ended once stage),rfl⟩

theorem arrives_await {onward : Except StoreError call.Row → Phase}
    {answer : Except StoreError call.Row} (plain : plan.failures = [])
    (next : p.next plan.movement plan.timeout = .await call onward)
    (started : l.start now (tx.getD l.nextTx) call = (l',.answered answer))
    (arrives : plan.Arrives now l' (some (tx.getD l.nextTx)) (onward answer) result) :
    plan.Arrives now l tx p result := by
  rintro j d rfl stage
  obtain ⟨j',reaches,finished⟩ := arrives { j with
    calls := j.calls ++ [call]
    stage := .running 0 (some (tx.getD l.nextTx)) (now + j.plan.limit) (onward answer) none } _
    rfl rfl
  exact ⟨j',.head (Job.step_awaited plain stage next started) reaches,finished⟩

theorem arrives_awaitBefore {onward : Option (Except StoreError call.Row) → Phase}
    {answer : Except StoreError call.Row} {t : TxId} (plain : plan.failures = [])
    (next : p.next plan.movement plan.timeout = .awaitBefore call onward)
    (started : l.start now t call = (l',.answered answer))
    (arrives : plan.Arrives now l' (some t) (onward (some answer)) result) :
    plan.Arrives now l (some t) p result := by
  rintro j d rfl stage
  obtain ⟨j',reaches,finished⟩ := arrives { j with
    calls := j.calls ++ [call]
    stage := .running 0 (some t) d (onward (some answer)) none } _ rfl rfl
  exact ⟨j',.head (Job.step_answered plain stage next started) reaches,finished⟩

end Arriving

section CallHistory
variable {plan : JobPlan} {now i k : Nat} {l l' : Ledger} {m : Movement} {p : Phase} {call : Call}
  {t : Tx} {held : List AccountId} {a b x y : Account}

structure JobPlan.Simple (plan : JobPlan) (m : Movement) : Prop where
  once : plan.retry = none
  plain : plan.failures = []
  moves : plan.movement = m

theorem JobPlan.Simple.next {n : Next} (simple : plan.Simple m)
    (next : p.next m plan.timeout = n) : p.next plan.movement plan.timeout = n := by
  rw [simple.moves,next]

structure Ledger.Open (l : Ledger) (m : Movement) : Prop where
  sound : l.Sound
  source : l.Free m.source
  destination : l.Free m.destination
  hold : l.lockHold = none
  delay : l.commitDelay = none

theorem Ledger.Open.lower (opened : l.Open m) : l.Free m.lower := by
  rcases m.lower_cases with ⟨first,_⟩ | ⟨first,_⟩ <;> rw [first]
  · exact opened.source
  · exact opened.destination

theorem Ledger.Open.higher (opened : l.Open m) : l.Free m.higher := by
  rcases m.lower_cases with ⟨_,second⟩ | ⟨_,second⟩ <;> rw [second]
  · exact opened.destination
  · exact opened.source

theorem Ledger.Open.disarm (opened : l.Open m) (q : FaultPoint) : (l.disarm q).Open m :=
  ⟨(acts_disarm opened.sound q l.nextTx).sound,opened.source,opened.destination,opened.hold,
    opened.delay⟩

theorem arrives_rollingBack (simple : plan.Simple m) (sound : l.Sound) (named : t.id = l.nextTx)
    (free : ∀ id ∈ held, l.Free id) (cause : TransferError) :
    plan.Arrives now (l.amid t held i k) (some l.nextTx) (.rollingBack cause)
      (.error cause,l.undone i k) := by
  have started : (l.amid t held i k).start now l.nextTx .rollback =
      (l.undone i k,.answered (.ok ())) :=
    congrArg (·,_) (Ledger.rollback_amid sound named free)
  exact arrives_await simple.plain rfl started (arrives_ended simple.once (.error cause))

theorem arrives_failed {step : TransferStep} {onward : call.Row → Phase} {e : StoreError}
    (simple : plan.Simple m) (sound : l.Sound) (named : t.id = l.nextTx)
    (free : ∀ id ∈ held, l.Free id)
    (next : p.next m plan.timeout = .awaitBefore call (Phase.proceed plan.timeout step onward))
    (started : l'.start now l.nextTx call = (l.amid t held i k,.answered (.error e))) :
    plan.Arrives now l' (some l.nextTx) p (.error (.store step e),l.undone i k) :=
  arrives_awaitBefore simple.plain (simple.next next) started
    (arrives_rollingBack simple sound named free _)

theorem arrives_committing (simple : plan.Simple m) (opened : l.Open m)
    (knows : l.Knows m a b x y) :
    let r := l.receipt now m a b
    plan.Arrives now
      (l.amid ⟨l.nextTx,[m.shift y,m.shift x],[r.debit,r.credit],[r.transfer]⟩
        [m.higher,m.lower] 1 2)
      (some l.nextTx) (.committing r)
      (Ledger.firstOf [l.strikes .commit .commit (·.undone 1 2)] (l.submitted r)) := by
  intro r
  have free : ∀ id ∈ [m.higher,m.lower], l.Free id := by
    simpa using ⟨opened.higher,opened.lower⟩
  let t : Tx := ⟨l.nextTx,[m.shift y,m.shift x],[r.debit,r.credit],[r.transfer]⟩
  have prompt : (l.amid t [m.higher,m.lower] 1 2).commitDelay = none := opened.delay
  have started : Ledger.start _ now l.nextTx .commit = _ := Ledger.start_commit prompt l.nextTx
  cases fault : l.fault? .commit with
  | some e =>
    have refused : (l.amid t [m.higher,m.lower] 1 2).commit l.nextTx =
        ((l.disarm .commit).undone 1 2,.error e) := by
      have armed : (l.amid t [m.higher,m.lower] 1 2).fault? .commit = some e := fault
      rw [Ledger.commit,armed]
      exact congrArg (·,_) (Ledger.rollback_amid (l := l.disarm .commit)
        (opened.disarm .commit).sound rfl free)
    rw [Ledger.strikes_armed fault,Ledger.firstOf_some]
    rw [refused] at started
    exact arrives_awaitBefore simple.plain rfl started (arrives_ended simple.once _)
  | none =>
    have entered : (l.amid t [m.higher,m.lower] 1 2).commit l.nextTx = _ :=
      knows.commit_amid opened.sound free fault now
    rw [Ledger.strikes_unarmed fault,Ledger.firstOf_none,Ledger.submitted]
    rw [entered] at started
    cases lost : l.fault? .commitAcknowledgement with
    | some e =>
      have lost' : (l.entered r).fault? .commitAcknowledgement = some e := lost
      rw [Ledger.guarded_armed lost'] at started
      exact arrives_awaitBefore simple.plain rfl started (arrives_ended simple.once _)
    | none =>
      have kept : (l.entered r).fault? .commitAcknowledgement = none := lost
      rw [Ledger.guarded_open kept] at started
      exact arrives_awaitBefore simple.plain rfl started (arrives_ended simple.once _)

theorem arrives_updatingSecond (simple : plan.Simple m) (opened : l.Open m)
    (knows : l.Knows m a b x y) (unarmed : l.fault? .addToBalance = none) :
    let r := l.receipt now m a b
    plan.Arrives now (l.amid ⟨l.nextTx,[m.shift x],[r.debit,r.credit],[r.transfer]⟩ [m.lower] 1 2)
      (some l.nextTx) (.updatingSecond r.transfer r.debit r.credit (m.shift x))
      (Ledger.firstOf [l.overflows m m.higher,l.strikes .commit .commit (·.undone 1 2)]
        (l.submitted r)) := by
  intro r
  let t : Tx := ⟨l.nextTx,[m.shift x],[r.debit,r.credit],[r.transfer]⟩
  have named : x.id = m.lower := Ledger.id_of_account? knows.lower
  have apart := m.lower_ne_higher knows.different
  have undrafted : t.account? m.higher = none := by
    simp [Tx.account?,t,Movement.shift,named,apart]
  have new : m.higher ∉ [m.lower] := by simpa using Ne.symm apart
  have started :
      (l.amid t [m.lower] 1 2).start now l.nextTx (.addToBalance m.higher (m.change m.higher)) = _ :=
    Ledger.addToBalance_amid opened.sound rfl unarmed opened.hold opened.higher new undrafted
      knows.higher
  have next : Phase.next m plan.timeout _ = _ :=
    Phase.next_updatingSecond knows.different r.transfer r.debit r.credit (m.shift x)
  by_cases fits : Bigint.Fits (y.balance + m.change m.higher)
  · rw [if_pos fits] at started
    have first : y.id ≠ x.id := by
      rw [named,Ledger.id_of_account? knows.higher]
      exact Ne.symm apart
    have put : t.put (m.shift y) =
        ⟨l.nextTx,[m.shift y,m.shift x],[r.debit,r.credit],[r.transfer]⟩ := by
      simp [Tx.put,t,Movement.shift,Ne.symm first]
    rw [put] at started
    rw [Ledger.overflows_borne knows.higher fits,Ledger.firstOf_none]
    refine arrives_awaitBefore simple.plain (simple.next next) started ?_
    have receipt := knows.receipt now
    dsimp only [Phase.proceed]
    rw [receipt]
    exact arrives_committing simple opened knows
  · rw [if_neg fits] at started
    rw [Ledger.overflows_unborne knows.higher fits,Ledger.firstOf_some]
    refine arrives_failed simple opened.sound rfl ?_ next started
    simpa using ⟨opened.higher,opened.lower⟩

theorem arrives_guarded {q : FaultPoint} {step : TransferStep} {onward : call.Row → Phase}
    {rest : List (Option (TransferError × Ledger))} {otherwise : Outcome × Ledger}
    (simple : plan.Simple m) (opened : l.Open m) (named : t.id = l.nextTx)
    (next : p.next m plan.timeout = .awaitBefore call (Phase.proceed plan.timeout step onward))
    (point : call.point? = some q)
    (arrives : l.fault? q = none →
      plan.Arrives now (l.amid t [] i k) (some l.nextTx) p (Ledger.firstOf rest otherwise)) :
    plan.Arrives now (l.amid t [] i k) (some l.nextTx) p
      (Ledger.firstOf (l.strikes q step (·.undone i k) :: rest) otherwise) := by
  cases fault : l.fault? q with
  | some e =>
    rw [Ledger.strikes_armed fault,Ledger.firstOf_some]
    have armed : (l.amid t [] i k).fault? q = some e := fault
    have started : Ledger.start _ now l.nextTx call = _ := Ledger.start_armed point armed l.nextTx
    exact arrives_failed (l := l.disarm q) simple (opened.disarm q).sound named (by simp) next
      started
  | none =>
    rw [Ledger.strikes_unarmed fault,Ledger.firstOf_none]
    exact arrives fault

theorem arrives_updatingFirst (simple : plan.Simple m) (opened : l.Open m)
    (knows : l.Knows m a b x y) :
    let r := l.receipt now m a b
    plan.Arrives now (l.amid ⟨l.nextTx,[],[r.debit,r.credit],[r.transfer]⟩ [] 1 2) (some l.nextTx)
      (.updatingFirst r.transfer r.debit r.credit)
      (Ledger.firstOf [l.strikes .addToBalance (.updateBalance m.lower) (·.undone 1 2),
        l.overflows m m.lower,l.overflows m m.higher,l.strikes .commit .commit (·.undone 1 2)]
        (l.submitted r)) := by
  intro r
  let t : Tx := ⟨l.nextTx,[],[r.debit,r.credit],[r.transfer]⟩
  have next : Phase.next m plan.timeout _ = _ :=
    Phase.next_updatingFirst knows.different r.transfer r.debit r.credit
  refine arrives_guarded simple opened rfl next rfl fun unarmed => ?_
  have started :
      (l.amid t [] 1 2).start now l.nextTx (.addToBalance m.lower (m.change m.lower)) = _ :=
    Ledger.addToBalance_amid opened.sound rfl unarmed opened.hold opened.lower List.not_mem_nil rfl
      knows.lower
  by_cases fits : Bigint.Fits (x.balance + m.change m.lower)
  · rw [if_pos fits] at started
    rw [Ledger.overflows_borne knows.lower fits,Ledger.firstOf_none]
    exact arrives_awaitBefore simple.plain (simple.next next) started
      (arrives_updatingSecond simple opened knows unarmed)
  · rw [if_neg fits] at started
    rw [Ledger.overflows_unborne knows.lower fits,Ledger.firstOf_some]
    refine arrives_failed simple opened.sound rfl ?_ next started
    simpa using opened.lower

-- The failure of the entries goes off at the debit.
theorem arrives_debiting (simple : plan.Simple m) (opened : l.Open m)
    (knows : l.Knows m a b x y) :
    let r := l.receipt now m a b
    plan.Arrives now (l.amid ⟨l.nextTx,[],[],[r.transfer]⟩ [] 1 0) (some l.nextTx)
      (.debiting r.transfer)
      (Ledger.firstOf [l.strikes .insertEntry .insertDebitEntry (·.undone 1 0),
        l.strikes .addToBalance (.updateBalance m.lower) (·.undone 1 2),
        l.overflows m m.lower,l.overflows m m.higher,l.strikes .commit .commit (·.undone 1 2)]
        (l.submitted r)) := by
  intro r
  refine arrives_guarded simple opened rfl rfl rfl fun unarmed => ?_
  have debited : (l.amid ⟨l.nextTx,[],[],[r.transfer]⟩ [] 1 0).start now l.nextTx
      (.insertEntry m.source (-m.amount)) = _ :=
    Ledger.insertEntry_amid opened.sound rfl unarmed knows.source
  refine arrives_awaitBefore simple.plain (simple.next rfl) debited ?_
  have credited : (l.amid ⟨l.nextTx,[],[r.debit],[r.transfer]⟩ [] 1 1).start now l.nextTx
      (.insertEntry m.destination m.amount) = _ :=
    Ledger.insertEntry_amid opened.sound rfl unarmed knows.destination
  have second : (↑(l.entrySeq + 1) + 1 : Int) = l.entrySeq + 2 := by omega
  rw [second] at credited
  exact arrives_awaitBefore simple.plain (simple.next rfl) credited
    (arrives_updatingFirst simple opened knows)

theorem arrives_recording (simple : plan.Simple m) (opened : l.Open m)
    (checked : m.check = .ok ()) :
    plan.Arrives now (l.amid ⟨l.nextTx,[],[],[]⟩ [] 0 0) (some l.nextTx) .recording
      (Ledger.firstOf ((l.obstacles m).drop 3) (l.submitted (l.receipt now m
        ((l.account? m.source).getD default) ((l.account? m.destination).getD default)))) := by
  obtain ⟨different,positive⟩ := Movement.check_eq_ok.mp checked
  refine arrives_guarded simple opened rfl rfl rfl fun unarmed => ?_
  cases source : l.account? m.source with
  | none =>
    rw [Ledger.lacks_missing source,Ledger.firstOf_some]
    refine arrives_failed simple opened.sound rfl (by simp) rfl
      (Ledger.insertTransfer_lacking unarmed different positive ?_)
    simp [source]
  | some a =>
    rw [Ledger.lacks_found source,Ledger.firstOf_none]
    cases destination : l.account? m.destination with
    | none =>
      rw [Ledger.lacks_missing destination,Ledger.firstOf_some]
      refine arrives_failed simple opened.sound rfl (by simp) rfl
        (Ledger.insertTransfer_lacking unarmed different positive ?_)
      simp [source,destination]
    | some b =>
      rw [Ledger.lacks_found destination,Ledger.firstOf_none]
      obtain ⟨x,y,knows⟩ := Ledger.knows_of_found different source destination
      have recorded : (l.amid ⟨l.nextTx,[],[],[]⟩ [] 0 0).start now l.nextTx
          (.insertTransfer m.source m.destination m.amount) = _ :=
        Ledger.insertTransfer_amid opened.sound rfl unarmed different positive source destination
      exact arrives_awaitBefore simple.plain (simple.next rfl) recorded
        (arrives_debiting simple opened knows)

theorem arrives_opening (simple : plan.Simple m) (opened : l.Open m)
    (checked : m.check = .ok ()) : plan.Arrives now l none .opening (l.foreseen now m) := by
  obtain ⟨different,positive⟩ := Movement.check_eq_ok.mp checked
  rw [Ledger.foreseen,Ledger.obstacles,if_neg different,if_neg (Int.not_le.mpr positive),
    Ledger.firstOf_none,Ledger.firstOf_none]
  cases fault : l.fault? .begin with
  | some e =>
    rw [Ledger.strikes_armed fault,Ledger.firstOf_some]
    exact arrives_await simple.plain (simple.next rfl) (Ledger.start_armed rfl fault _)
      (arrives_ended simple.once _)
  | none =>
    rw [Ledger.strikes_unarmed fault,Ledger.firstOf_none]
    exact arrives_await simple.plain (simple.next rfl) (Ledger.start_begin fault _)
      (arrives_recording simple opened checked)

theorem arrives_start (simple : plan.Simple m) (opened : l.Open m) :
    plan.Arrives now l none (.start m) (l.foreseen now m) := by
  by_cases same : m.source = m.destination
  · have refused : m.check = .error (.sameAccount m.source) := if_pos same
    rw [Phase.start,refused,Ledger.foreseen,Ledger.obstacles,if_pos same,Ledger.firstOf_some]
    exact arrives_ended simple.once _
  · by_cases nothing : m.amount ≤ 0
    · have refused : m.check = .error (.invalidAmount m.amount) :=
        (if_neg same).trans (if_pos nothing)
      rw [Phase.start,refused,Ledger.foreseen,Ledger.obstacles,if_neg same,if_pos nothing,
        Ledger.firstOf_none,Ledger.firstOf_some]
      exact arrives_ended simple.once _
    · have checked : m.check = .ok () :=
        Movement.check_eq_ok.mpr ⟨same,Int.not_le.mp nothing⟩
      rw [Phase.start,checked]
      exact arrives_opening simple opened checked

end CallHistory

-- Run by itself on a bank at which no one holds its rows, and where nothing takes time, a transfer
-- comes to the outcome and the ledger that are foreseen, whatever it moves and whatever is armed.
theorem transfer_foreseen {b : Bank} {history : List Turn} (runs : Runs {} history b)
    {plan : JobPlan} (once : plan.retry = none) (plain : plan.failures = [])
    (source : b.ledger.Free plan.movement.source)
    (destination : b.ledger.Free plan.movement.destination)
    (hold : b.ledger.lockHold = none) (delay : b.ledger.commitDelay = none) :
    let (outcome,left) := b.ledger.foreseen b.clock plan.movement
    ∃ j, Job.Reaches b.clock (b.ledger,Job.start b.clock b.ledger plan) (left,j) ∧
      j.stage = .finished outcome b.clock := by
  have opened : b.ledger.Open plan.movement :=
    ⟨(runs_sound runs).ledger,source,destination,hold,delay⟩
  refine arrives_start ⟨once,plain,rfl⟩ opened (Job.start b.clock b.ledger plan) 0 rfl ?_
  simp only [Job.start,once,Stage.attempt]

-- Another transaction holds a row that does not matter here, and one failure is still armed.
def beside : List Move :=
  [.createAccount "alice" .eur 1000,.createAccount "bob" .eur 500,.createAccount "carol" .eur 0,
    .begin,.call 0 (.addToBalance 3 70),.call 0 (.insertEntry 3 70),
    .arm .commitAcknowledgement (.transient "lost"),.pass 40]

theorem beside_ends : (Bank.replay {} beside).isSome = true := by decide +kernel

theorem transfer_foreseen_beside :
    let b := ((Bank.replay {} beside).get beside_ends).2
    let plan : JobPlan := { request := { source := 2, destination := 1, amount := 30 } }
    let (outcome,left) := b.ledger.foreseen b.clock plan.movement
    outcome = .error (.store .commit (.transient "lost")) ∧
      left.balances = [(1,1030),(2,470),(3,0)] ∧ left.locked 0 = [3] ∧ left.faults = [] ∧
      ∃ j, Job.Reaches b.clock (b.ledger,Job.start b.clock b.ledger plan) (left,j) ∧
        j.stage = .finished outcome b.clock :=
  ⟨rfl,by decide +kernel,by decide +kernel,by decide +kernel,
    transfer_foreseen (runs_of_ends beside_ends) rfl rfl (by decide +kernel) (by decide +kernel)
      (by decide +kernel) (by decide +kernel)⟩

end DoubleEntry
