import DoubleEntry.Ledger.Progress
import DoubleEntry.Proofs.Isolation
import DoubleEntry.Transfer.Request

namespace DoubleEntry

namespace Update

def total : List Update → AccountId → Int
  | [],_ => 0
  | u :: rest,id => (if u.account = id then u.delta else 0) + total rest id

theorem total_append (us vs : List Update) (id : AccountId) :
    total (us ++ vs) id = total us id + total vs id := by
  induction us with
  | nil => simp [total]
  | cons u rest ih => simp only [List.cons_append,total,ih,Int.add_assoc]

theorem total_untouched {us : List Update} {id : AccountId} (untouched : ∀ u ∈ us, u.account ≠ id) :
    total us id = 0 := by
  induction us with
  | nil => rfl
  | cons u rest ih =>
    have here := untouched u (by simp)
    have later := ih fun v member => untouched v (by simp [member])
    simp [total,here,later]

end Update

-- An open transaction by itself: its inserted rows, its balance changes, the rows whose locks it
-- holds and the one it waits for.
structure TxView where
  transfers : List Transfer := []
  entries : List Entry := []
  deltas : List Update := []
  held : List AccountId := []
  sought : Option AccountId := none

namespace TxView

def Touches (s : TxView) (id : AccountId) : Prop := ∃ u ∈ s.deltas, u.account = id

def draft (s : TxView) (a : Account) : Account :=
  { a with balance := a.balance + Update.total s.deltas a.id }

def change (s : TxView) (u : Update) : TxView := { s with deltas := s.deltas ++ [u] }

theorem touches_change {s : TxView} {u : Update} {id : AccountId} :
    (s.change u).Touches id ↔ s.Touches id ∨ u.account = id := by
  simp only [Touches,change,List.mem_append,List.mem_singleton]
  constructor
  · rintro ⟨v,old | rfl,same⟩
    · exact .inl ⟨v,old,same⟩
    · exact .inr same
  · rintro (⟨v,old,same⟩ | same)
    · exact ⟨v,.inl old,same⟩
    · exact ⟨u,.inr rfl,same⟩

theorem draft_change (s : TxView) {u : Update} {a : Account} (here : u.account = a.id) :
    (s.change u).draft a = { s.draft a with balance := (s.draft a).balance + u.delta } := by
  simp only [draft,change,Update.total_append,Update.total,here,if_true,Int.add_zero,Int.add_assoc]

theorem draft_change_ne (s : TxView) {u : Update} {a : Account} (other : u.account ≠ a.id) :
    (s.change u).draft a = s.draft a := by
  simp [draft,change,Update.total_append,Update.total,other]

def take (s : TxView) (id : AccountId) : TxView :=
  if id ∈ s.held then s else { s with held := s.held ++ [id] }

-- The view while a call waits: for a row, or after having taken it.
def awaiting (s : TxView) : Option Wait → Call → TxView
  | some (.row _),.addToBalance id _ => { s with sought := some id }
  | some (.until _),.addToBalance id _ => s.take id
  | _,_ => s

def after (s : TxView) : (call : Call) → call.Row → TxView
  | .insertTransfer _ _ _,row => { s with transfers := s.transfers ++ [row] }
  | .insertEntry _ _,row => { s with entries := s.entries ++ [row] }
  | .addToBalance id delta,_ => { s.take id with deltas := s.deltas ++ [⟨id,delta⟩] }
  | _,_ => s

theorem draft_untouched {s : TxView} {a : Account} (untouched : ¬s.Touches a.id) :
    s.draft a = a := by
  have none : Update.total s.deltas a.id = 0 :=
    Update.total_untouched fun u member same => untouched ⟨u,member,same⟩
  simp [draft,none]

theorem mem_held_take {s : TxView} {id seen : AccountId} :
    seen ∈ (s.take id).held ↔ seen ∈ s.held ∨ seen = id := by
  unfold take
  split
  · rename_i already
    constructor
    · exact .inl
    · rintro (old | rfl)
      · exact old
      · exact already
  · simp

@[simp] theorem transfers_take (s : TxView) (id : AccountId) :
    (s.take id).transfers = s.transfers := by
  unfold take
  split <;> rfl

@[simp] theorem entries_take (s : TxView) (id : AccountId) : (s.take id).entries = s.entries := by
  unfold take
  split <;> rfl

@[simp] theorem deltas_take (s : TxView) (id : AccountId) : (s.take id).deltas = s.deltas := by
  unfold take
  split <;> rfl

@[simp] theorem sought_take (s : TxView) (id : AccountId) : (s.take id).sought = s.sought := by
  unfold take
  split <;> rfl

theorem apart_of_idle {s : TxView} (idle : s.sought = none) (id : AccountId)
    (sought : s.sought = some id) : id ∉ s.held := by
  rw [idle] at sought
  cases sought

theorem awaiting_commit (s : TxView) (w : Option Wait) : s.awaiting w .commit = s := by
  rcases w with _ | (_ | _) <;> rfl

theorem deltas_awaiting (s : TxView) (w : Option Wait) (call : Call) :
    (s.awaiting w call).deltas = s.deltas := by
  rcases w with _ | (_ | _) <;> cases call <;> simp [awaiting]

end TxView

def Books.post (k : Books) (s : TxView) : Books :=
  ⟨k.accounts.map s.draft,k.entries ++ s.entries,k.transfers ++ s.transfers⟩

namespace Ledger
variable {l l' : Ledger} {tx : TxId} {id : AccountId} {s s' : TxView}

-- The ledger has the transaction as the view shows it: its drafts are the committed accounts with its
-- changes added, and it has drafts only of accounts whose rows it holds.
structure HasView (l : Ledger) (tx : TxId) (s : TxView) : Prop where
  inserted : ∃ t, l.tx? tx = some t ∧ t.transfers = s.transfers ∧ t.entries = s.entries
  drafts : ∀ id, s.Touches id → l.draft? tx id = (l.account? id).map s.draft
  blank : ∀ id, ¬s.Touches id → l.draft? tx id = none
  covered : ∀ id, s.Touches id → id ∈ s.held
  holds : ∀ id ∈ s.held, l.Holds tx id
  seated : ∀ id, l.Seated tx id → id ∈ s.held ∨ s.sought = some id
  sought : ∀ id, s.sought = some id → l.Seated tx id
  apart : ∀ id, s.sought = some id → id ∉ s.held

theorem HasView.live (view : l.HasView tx s) : l.Live tx := by
  obtain ⟨t,found,_⟩ := view.inserted
  exact ⟨t,found⟩

-- Others cannot touch what the transaction has in view.
theorem HasView.preserved (view : l.HasView tx s) (preserved : PreservesTx tx l l') :
    l'.HasView tx s := by
  refine ⟨?_,?_,?_,view.covered,?_,?_,?_,view.apart⟩
  · rw [preserved.own]
    exact view.inserted
  · intro id touched
    rw [draft?_of_tx? preserved.own,view.drafts id touched,
      preserved.account? (view.holds id (view.covered id touched))]
  · intro id untouched
    rw [draft?_of_tx? preserved.own]
    exact view.blank id untouched
  · intro id member
    exact preserved.holds (view.holds id member)
  · intro id seated
    exact view.seated id (preserved.seated.mp seated)
  · intro id sought
    exact preserved.seated.mpr (view.sought id sought)

theorem HasView.version? (view : l.HasView tx s) (id : AccountId) :
    l.version? tx id = (l.account? id).map s.draft := by
  have seen : l.version? tx id = (l.draft? tx id).or (l.account? id) := rfl
  rw [seen]
  by_cases touched : s.Touches id
  · rw [view.drafts id touched]
    cases l.account? id <;> rfl
  · rw [view.blank id touched,Option.none_or]
    cases found : l.account? id with
    | none => rfl
    | some a =>
      rw [← id_of_account? found] at touched
      rw [Option.map_some,TxView.draft_untouched touched]

theorem HasView.of_same (view : l.HasView tx s) (rows : l'.rows = l.rows) (live : l'.live = l.live) :
    l'.HasView tx s :=
  view.preserved (preservesTx_of_rows rows (tx?_of_live live tx))

theorem hasView_open (sound : l.Sound) (live : l'.live = l.live ++ [({ id := l.nextTx } : Tx)])
    (rows : l'.rows = l.rows) : l'.HasView l.nextTx {} := by
  have unused : l.tx? l.nextTx = none := by
    cases found : l.tx? l.nextTx with
    | none => rfl
    | some t => exact absurd (sound.fresh l.nextTx ⟨t,found⟩) (Nat.lt_irrefl _)
  have found : l'.tx? l.nextTx = some { id := l.nextTx } := by
    rw [tx?_append live,unused,if_pos rfl,Option.none_or]
  have blank : ∀ id, l'.draft? l.nextTx id = none := by
    intro id
    simp [draft?,found,Tx.account?]
  refine ⟨⟨_,found,rfl,rfl⟩,?_,fun id _ => blank id,?_,?_,?_,?_,?_⟩
  · rintro id ⟨u,member,_⟩
    cases member
  · rintro id ⟨u,member,_⟩
    cases member
  · intro id member
    cases member
  · rintro id ⟨r,here,member⟩
    have before : l.row? id = some r := by simpa only [row?,rows] using here
    obtain ⟨t,used⟩ := sound.seated id l.nextTx ⟨r,before,member⟩
    rw [unused] at used
    cases used
  · intro id sought
    cases sought
  · intro id sought
    cases sought

theorem HasView.insert (view : l.HasView tx s) {f : Tx → Tx} (same : ∀ t, (f t).id = t.id)
    (found : l.tx? tx = some t) (accounts : (f t).accounts = t.accounts)
    (rows : l'.rows = l.rows) (live : l'.live = (l.updateTx tx f).live) :
    l'.HasView tx { s with transfers := (f t).transfers, entries := (f t).entries } := by
  have own : l'.tx? tx = some (f t) :=
    (tx?_of_live live tx).trans (tx?_updateTx_self same found)
  have drafts : ∀ id, l'.draft? tx id = l.draft? tx id := by
    intro id
    simp only [draft?,own,found,Option.bind_some,Tx.account?,accounts]
  have looked : ∀ id, l'.row? id = l.row? id := by
    intro id
    simp only [row?,rows]
  refine ⟨⟨f t,own,rfl,rfl⟩,?_,?_,view.covered,?_,?_,?_,view.apart⟩
  · intro id touched
    rw [drafts,account?_of_rows rows]
    exact view.drafts id touched
  · intro id untouched
    rw [drafts]
    exact view.blank id untouched
  · intro id member
    simpa only [Holds,looked] using view.holds id member
  · intro id seated
    exact view.seated id (by simpa only [Seated,looked] using seated)
  · intro id sought
    simpa only [Seated,looked] using view.sought id sought

-- The locks of the transaction move; what it wrote and what is committed stay.
theorem HasView.reseat (view : l.HasView tx s) (own : l'.tx? tx = l.tx? tx)
    (accounts : ∀ id, l'.account? id = l.account? id) (transfers : s'.transfers = s.transfers)
    (entries : s'.entries = s.entries) (deltas : s'.deltas = s.deltas)
    (wider : ∀ id ∈ s.held, id ∈ s'.held) (holds : ∀ id ∈ s'.held, l'.Holds tx id)
    (seated : ∀ id, l'.Seated tx id → id ∈ s'.held ∨ s'.sought = some id)
    (sought : ∀ id, s'.sought = some id → l'.Seated tx id)
    (apart : ∀ id, s'.sought = some id → id ∉ s'.held) : l'.HasView tx s' := by
  have touches : ∀ id, s'.Touches id ↔ s.Touches id := by
    intro id
    simp only [TxView.Touches,deltas]
  have alike : s'.draft = s.draft := by
    funext a
    simp only [TxView.draft,deltas]
  refine ⟨?_,?_,?_,?_,holds,seated,sought,apart⟩
  · rw [own,transfers,entries]
    exact view.inserted
  · intro id touched
    rw [draft?_of_tx? own,accounts,alike]
    exact view.drafts id ((touches id).mp touched)
  · intro id untouched
    rw [draft?_of_tx? own]
    exact view.blank id fun touched => untouched ((touches id).mpr touched)
  · intro id touched
    exact wider id (view.covered id ((touches id).mp touched))

-- Adding to a balance whose row is held changes the draft by exactly that much.
theorem HasView.add (view : l.HasView tx s) (held : id ∈ s.held)
    (seen : l.version? tx id = some account) (delta : Int) :
    (l.updateTx tx (·.put { account with balance := account.balance + delta })).HasView tx
      (s.change ⟨id,delta⟩) := by
  obtain ⟨t,found,transfers,entries⟩ := view.inserted
  obtain ⟨committed,here,drafted⟩ := Option.map_eq_some_iff.mp ((view.version? id).symm.trans seen)
  have named : committed.id = id := id_of_account? here
  subst drafted
  let new : Account :=
    { s.draft committed with balance := (s.draft committed).balance + delta }
  have own : (l.updateTx tx (·.put new)).tx? tx = some (t.put new) :=
    tx?_updateTx_self (fun _ => rfl) found
  have drafts : ∀ seen, (l.updateTx tx (·.put new)).draft? tx seen =
      if id = seen then some new else l.draft? tx seen := by
    intro seen
    simp only [draft?,own,found,Option.bind_some,Tx.account?_put]
    exact congrArg (fun i => if i = seen then some new else t.account? seen) named
  refine ⟨⟨t.put new,own,transfers,entries⟩,?_,?_,?_,view.holds,view.seated,view.sought,
    view.apart⟩
  · intro seen touched
    rw [drafts]
    split
    · rename_i same
      subst same
      have committed' : (l.updateTx tx (·.put new)).account? id = some committed := here
      rw [committed',Option.map_some,s.draft_change named.symm]
    · rename_i different
      have before : s.Touches seen := (TxView.touches_change.mp touched).resolve_right different
      have committed' : (l.updateTx tx (·.put new)).account? seen = l.account? seen := rfl
      rw [committed',view.drafts seen before]
      cases there : l.account? seen with
      | none => rfl
      | some a =>
        have foreign : id ≠ a.id := fun same => different (same.trans (id_of_account? there))
        rw [Option.map_some,Option.map_some,s.draft_change_ne foreign]
  · intro seen untouched
    have before : ¬s.Touches seen := fun old => untouched (TxView.touches_change.mpr (.inl old))
    have different : id ≠ seen := fun same => untouched (TxView.touches_change.mpr (.inr same))
    rw [drafts,if_neg different]
    exact view.blank seen before
  · intro seen touched
    rcases TxView.touches_change.mp touched with old | rfl
    · exact view.covered seen old
    · exact held

end Ledger
end DoubleEntry
