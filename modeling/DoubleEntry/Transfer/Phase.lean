import DoubleEntry.Transfer.Call
import DoubleEntry.Transfer.Request

namespace DoubleEntry

abbrev Outcome := Except TransferError Receipt

inductive Phase where
  | opening
  | recording
  | debiting (transfer : Transfer)
  | crediting (transfer : Transfer) (debit : Entry)
  | updatingFirst (transfer : Transfer) (debit credit : Entry)
  | updatingSecond (transfer : Transfer) (debit credit : Entry) (first : Account)
  | committing (receipt : Receipt)
  | rollingBack (cause : TransferError)
  | ended (outcome : Outcome)

-- What a phase does next: nothing more, a call that is awaited however long it takes, or one
-- that is given up at the deadline. Then the answer is `none`.
inductive Next where
  | ended (outcome : Outcome)
  | await (call : Call) (resume : Except StoreError call.Row → Phase)
  | awaitBefore (call : Call) (resume : Option (Except StoreError call.Row) → Phase)

namespace Phase

def start (m : Movement) : Phase :=
  match m.check with
  | .ok () => opening
  | .error e => ended (.error e)

def proceed (limit : Duration) (step : TransferStep) (onward : α → Phase) :
    Option (Except StoreError α) → Phase
  | some (.ok row) => onward row
  | some (.error e) => rollingBack (.store step e)
  | none => rollingBack (.timeout limit)

def receipt (m : Movement) (transfer : Transfer) (debit credit : Entry) (first second : Account) :
    Receipt :=
  if first.id = m.source then ⟨transfer,debit,credit,first,second⟩
  else ⟨transfer,debit,credit,second,first⟩

def next (m : Movement) (limit : Duration) : Phase → Next
  | opening => .await .begin fun
    | .ok () => recording
    | .error e => ended (.error (.store .begin e))
  | recording =>
    .awaitBefore (.insertTransfer m.source m.destination m.amount)
      (proceed limit .insertTransfer debiting)
  | debiting transfer =>
    .awaitBefore (.insertEntry m.source (-m.amount))
      (proceed limit .insertDebitEntry (crediting transfer))
  | crediting transfer debit =>
    .awaitBefore (.insertEntry m.destination m.amount)
      (proceed limit .insertCreditEntry (updatingFirst transfer debit))
  | updatingFirst transfer debit credit =>
    let u := m.updates.1
    .awaitBefore (.addToBalance u.account u.delta)
      (proceed limit (.updateBalance u.account) (updatingSecond transfer debit credit))
  | updatingSecond transfer debit credit first =>
    let u := m.updates.2
    .awaitBefore (.addToBalance u.account u.delta)
      (proceed limit (.updateBalance u.account)
        fun second => committing (receipt m transfer debit credit first second))
  | committing r => .awaitBefore .commit fun
    | some (.ok ()) => ended (.ok r)
    | some (.error e) => ended (.error (.store .commit e))
    | none => ended (.error (.commitTimeout limit))
  -- A rollback that fails changes nothing: the store discards a transaction that is left alone.
  | rollingBack cause => .await .rollback fun _ => ended (.error cause)
  | ended outcome => .ended outcome

-- An upper bound on the calls still to come.
def rank : Phase → Nat
  | opening => 8
  | recording => 7
  | debiting _ => 6
  | crediting _ _ => 5
  | updatingFirst _ _ _ => 4
  | updatingSecond _ _ _ _ => 3
  | committing _ => 2
  | rollingBack _ => 1
  | ended _ => 0

theorem rank_proceed (limit : Duration) (step : TransferStep) {onward : α → Phase} {n : Nat}
    (below : ∀ row, (onward row).rank ≤ n) (positive : 1 ≤ n) (answer) :
    (proceed limit step onward answer).rank ≤ n := by
  match answer with
  | some (.ok row) => exact below row
  | some (.error _) => exact positive
  | none => exact positive

theorem rank_await {m : Movement} {limit : Duration} {p : Phase} {call resume}
    (h : p.next m limit = .await call resume) (answer) : (resume answer).rank < p.rank := by
  cases p <;> simp only [next,Next.await.injEq,reduceCtorEq] at h
  · obtain ⟨rfl,h⟩ := h
    cases eq_of_heq h
    cases answer <;> simp [rank]
  · obtain ⟨rfl,h⟩ := h
    cases eq_of_heq h
    simp [rank]

theorem rank_awaitBefore {m : Movement} {limit : Duration} {p : Phase} {call resume}
    (h : p.next m limit = .awaitBefore call resume) (answer) : (resume answer).rank < p.rank := by
  cases p <;> simp only [next,Next.awaitBefore.injEq,reduceCtorEq] at h <;>
    obtain ⟨rfl,h⟩ := h <;> cases eq_of_heq h
  case committing =>
    match answer with
    | some (.ok ()) => simp [rank]
    | some (.error _) => simp [rank]
    | none => simp [rank]
  all_goals exact Nat.lt_succ_of_le (rank_proceed _ _ (by intro; exact Nat.le_refl _) (by decide) _)

-- The whole transfer on a store that answers every call in time.
def drive [Monad μ] (m : Movement) (limit : Duration)
    (answer : (call : Call) → μ (Except StoreError call.Row)) (p : Phase) : μ Outcome :=
  match h : p.next m limit with
  | .ended outcome => pure outcome
  | .await call resume => do
    let row ← answer call
    have := rank_await h row
    drive m limit answer (resume row)
  | .awaitBefore call resume => do
    let row ← answer call
    have := rank_awaitBefore h (some row)
    drive m limit answer (resume (some row))
termination_by p.rank

section Drive
variable {μ : Type → Type} [Monad μ] {m : Movement} {limit : Duration} {p : Phase} {call : Call}
  {answer : (call : Call) → μ (Except StoreError call.Row)}

theorem drive_ended (outcome : Outcome) : (ended outcome).drive m limit answer = pure outcome := by
  rw [drive]
  rfl

theorem drive_await {resume : Except StoreError call.Row → Phase}
    (due : p.next m limit = .await call resume) :
    p.drive m limit answer = answer call >>= fun row => (resume row).drive m limit answer := by
  rw [drive]
  split <;> rename_i same <;> rw [due] at same <;> cases same
  rfl

theorem drive_awaitBefore {resume : Option (Except StoreError call.Row) → Phase}
    (due : p.next m limit = .awaitBefore call resume) :
    p.drive m limit answer =
      answer call >>= fun row => (resume (some row)).drive m limit answer := by
  rw [drive]
  split <;> rename_i same <;> rw [due] at same <;> cases same
  rfl

end Drive

end Phase
end DoubleEntry
