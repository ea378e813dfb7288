import DoubleEntry.Proofs.Commits
import DoubleEntry.Transfer.Phase

namespace DoubleEntry

namespace Movement
variable {m : Movement}

def change (m : Movement) (id : AccountId) : Int :=
  (if id = m.source then -m.amount else 0) + (if id = m.destination then m.amount else 0)

def shift (m : Movement) (a : Account) : Account := { a with balance := a.balance + m.change a.id }

def Records (m : Movement) (t : Transfer) : Prop :=
  t.source = m.source ∧ t.destination = m.destination ∧ t.amount = m.amount

def Debits (m : Movement) (e : Entry) : Prop := e.account = m.source ∧ e.amount = -m.amount

def Credits (m : Movement) (e : Entry) : Prop := e.account = m.destination ∧ e.amount = m.amount

theorem updates_cases (m : Movement) :
    m.updates = (⟨m.source,-m.amount⟩,⟨m.destination,m.amount⟩) ∨
      m.updates = (⟨m.destination,m.amount⟩,⟨m.source,-m.amount⟩) := by
  unfold updates lockOrder
  split
  · exact .inl rfl
  · exact .inr rfl

theorem updates_apart (different : m.source ≠ m.destination) :
    m.updates.1.account ≠ m.updates.2.account := by
  rcases updates_cases m with order | order <;> rw [order]
  · exact different
  · exact Ne.symm different

theorem total_updates (m : Movement) (id : AccountId) :
    Update.total [m.updates.1,m.updates.2] id = m.change id := by
  have flip : ∀ a : AccountId, (a = id) = (id = a) := fun a => propext eq_comm
  rcases updates_cases m with order | order <;>
    simp only [order,Update.total,change,flip,Int.add_zero]
  rw [Int.add_comm]

end Movement

def Books.enter (k : Books) (m : Movement) (r : Receipt) : Books :=
  ⟨k.accounts.map m.shift,k.entries ++ [r.debit,r.credit],k.transfers ++ [r.transfer]⟩

namespace Phase
variable {l l' : Ledger} {m : Movement} {t : TxId} {s : TxView} {p : Phase}

def asks (m : Movement) : Phase → Call
  | opening => .begin
  | recording => .insertTransfer m.source m.destination m.amount
  | debiting _ => .insertEntry m.source (-m.amount)
  | crediting _ _ => .insertEntry m.destination m.amount
  | updatingFirst _ _ _ => .addToBalance m.updates.1.account m.updates.1.delta
  | updatingSecond _ _ _ _ => .addToBalance m.updates.2.account m.updates.2.delta
  | committing _ => .commit
  | rollingBack _ | ended _ => .rollback

-- What the transaction has done when the transfer is at a phase, between two calls.
def Rests (m : Movement) (l : Ledger) (t : TxId) (s : TxView) : Phase → Prop
  | recording => s = {}
  | debiting transfer => m.Records transfer ∧ s = { transfers := [transfer] }
  | crediting transfer debit =>
    m.Records transfer ∧ m.Debits debit ∧ s = { transfers := [transfer], entries := [debit] }
  | updatingFirst transfer debit credit =>
    m.Records transfer ∧ m.Debits debit ∧ m.Credits credit ∧
      s = { transfers := [transfer], entries := [debit,credit] }
  | updatingSecond transfer debit credit first =>
    m.Records transfer ∧ m.Debits debit ∧ m.Credits credit ∧
      s = {
        transfers := [transfer]
        entries := [debit,credit]
        deltas := [m.updates.1]
        held := [m.updates.1.account] } ∧
      l.draft? t m.updates.1.account = some first
  | committing r =>
    m.Records r.transfer ∧ m.Debits r.debit ∧ m.Credits r.credit ∧
      s = {
        transfers := [r.transfer]
        entries := [r.debit,r.credit]
        deltas := [m.updates.1,m.updates.2]
        held := [m.updates.1.account,m.updates.2.account] } ∧
      l.draft? t m.source = some r.source ∧ l.draft? t m.destination = some r.destination
  | rollingBack _ => s.sought = none
  | opening | ended _ => False

theorem Rests.idle (rests : p.Rests m l t s) : s.sought = none := by
  cases p with
  | opening | ended _ => cases rests
  | recording => cases rests; rfl
  | debiting _ => cases rests.2; rfl
  | crediting _ _ => cases rests.2.2; rfl
  | updatingFirst _ _ _ => cases rests.2.2.2; rfl
  | updatingSecond _ _ _ _ => cases rests.2.2.2.1; rfl
  | committing _ => cases rests.2.2.2.1; rfl
  | rollingBack _ => exact rests

-- Phases look at the drafts of their own transaction only.
theorem Rests.of_own (rests : p.Rests m l t s) (own : l'.tx? t = l.tx? t) :
    p.Rests m l' t s := by
  have drafts := Ledger.draft?_of_tx? own
  cases p with
  | opening | ended _ => cases rests
  | updatingSecond _ _ _ _ | committing _ => simpa only [Rests,drafts] using rests
  | recording | debiting _ | crediting _ _ | updatingFirst _ _ _ | rollingBack _ => exact rests

-- A call before the commit either brings a row or starts the rollback.
theorem inside_or_committing {call : Call}
    {onward : Option (Except StoreError call.Row) → Phase}
    (next : p.next m limit = .awaitBefore call onward) :
    (call = p.asks m ∧ call.Inside ∧ onward none = rollingBack (.timeout limit) ∧
      ∀ e, ∃ step, onward (some (.error e)) = rollingBack (.store step e)) ∨
    ∃ r, p = committing r := by
  cases p with
  | opening | rollingBack _ | ended _ => simp only [Phase.next,reduceCtorEq] at next
  | committing r => exact .inr ⟨r,rfl⟩
  | recording | debiting _ | crediting _ _ | updatingFirst _ _ _ | updatingSecond _ _ _ _ =>
    cases next
    exact .inl ⟨rfl,trivial,rfl,fun e => ⟨_,rfl⟩⟩

theorem receipt_rows (m : Movement) (transfer : Transfer) (debit credit : Entry)
    (first second : Account) :
    (receipt m transfer debit credit first second).transfer = transfer ∧
      (receipt m transfer debit credit first second).debit = debit ∧
      (receipt m transfer debit credit first second).credit = credit := by
  unfold receipt
  split <;> exact ⟨rfl,rfl,rfl⟩

-- Whichever account was updated first, the receipt shows the source as the source.
theorem receipt_updates (different : m.source ≠ m.destination) {transfer : Transfer}
    {debit credit : Entry} {first second : Account} (named : first.id = m.updates.1.account)
    (one : l.draft? t m.updates.1.account = some first)
    (two : l.draft? t m.updates.2.account = some second) :
    l.draft? t m.source = some (receipt m transfer debit credit first second).source ∧
      l.draft? t m.destination =
        some (receipt m transfer debit credit first second).destination := by
  unfold receipt
  rcases Movement.updates_cases m with order | order <;> rw [order] at named one two
  · rw [if_pos named]
    exact ⟨one,two⟩
  · have swapped : first.id ≠ m.source := fun same => different (same.symm.trans named)
    rw [if_neg swapped]
    exact ⟨two,one⟩

theorem Rests.onward (rests : p.Rests m l t s) (different : m.source ≠ m.destination)
    {call : Call} {row : call.Row} {onward : Option (Except StoreError call.Row) → Phase}
    (next : p.next m limit = .awaitBefore call onward) (inside : call.Inside)
    (shows : l'.Shows t call row)
    (kept : ∀ id, (∀ delta, call ≠ .addToBalance id delta) → l'.draft? t id = l.draft? t id) :
    (onward (some (.ok row))).Rests m l' t (s.after call row) := by
  cases p with
  | opening | rollingBack _ | ended _ => simp only [Phase.next,reduceCtorEq] at next
  | committing r =>
    cases next
    cases inside
  | recording =>
    cases next
    cases rests
    exact ⟨shows,rfl⟩
  | debiting transfer =>
    cases next
    obtain ⟨records,rfl⟩ := rests
    exact ⟨records,shows,rfl⟩
  | crediting transfer debit =>
    cases next
    obtain ⟨records,debits,rfl⟩ := rests
    exact ⟨records,debits,shows,rfl⟩
  | updatingFirst transfer debit credit =>
    cases next
    obtain ⟨records,debits,credits,rfl⟩ := rests
    exact ⟨records,debits,credits,rfl,shows⟩
  | updatingSecond transfer debit credit first =>
    cases next
    obtain ⟨records,debits,credits,rfl,drafted⟩ := rests
    have apart := Movement.updates_apart different
    have still : l'.draft? t m.updates.1.account = some first := by
      rw [kept,drafted]
      intro delta same
      exact apart (Call.addToBalance.inj same).1.symm
    have taken : m.updates.2.account ∉ [m.updates.1.account] := by
      simpa using Ne.symm apart
    obtain ⟨transferred,debited,credited⟩ :=
      receipt_rows m transfer debit credit first row
    change (committing (receipt m transfer debit credit first row)).Rests m l' t _
    simp only [Rests,transferred,debited,credited]
    refine ⟨records,debits,credits,?_,?_⟩
    · simp only [TxView.after,TxView.take,taken,if_false]
      rfl
    · exact receipt_updates different (Ledger.id_of_draft? still) still shows

end Phase
end DoubleEntry
