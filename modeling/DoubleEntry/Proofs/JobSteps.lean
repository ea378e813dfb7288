import DoubleEntry.Proofs.Bank
import DoubleEntry.Proofs.Phases

namespace DoubleEntry

inductive Job.Steps (now : Nat) (l : Ledger) (j : Job) : Ledger → Job → Prop where
  | wake {n time : Nat} (stage : j.stage = .resting n time) (due : time ≤ now) :
      Steps now l j l { j with stage := .attempt j.plan n }
  | rest {n deadline ticks : Nat} {tx : Option TxId} {outcome : Outcome} {wait : Option Wait}
      (stage : j.stage = .running n tx deadline (.ended outcome) wait)
      (again : j.plan.policy.again? n outcome = some ticks) :
      Steps now l j l { j with stage := .resting (n + 1) (restUntil now ticks) }
  | finish {n deadline : Nat} {tx : Option TxId} {outcome : Outcome} {wait : Option Wait}
      (stage : j.stage = .running n tx deadline (.ended outcome) wait)
      (enough : j.plan.policy.again? n outcome = none) :
      Steps now l j l { j with stage := .finished outcome now }
  | await {n deadline : Nat} {tx : Option TxId} {p : Phase} {wait : Option Wait} {call : Call}
      {onward : Except StoreError call.Row → Phase} {l' : Ledger}
      {answer : Except StoreError call.Row}
      (stage : j.stage = .running n tx deadline p wait)
      (next : p.next j.plan.movement j.plan.timeout = .await call onward)
      (issued : j.issue l now (tx.getD l.nextTx) call = (l',.answered answer)) :
      Steps now l j l' { j with
        calls := j.calls ++ [call]
        stage := .running n (some (tx.getD l.nextTx)) (now + j.plan.limit) (onward answer) none }
  | answered {n deadline : Nat} {tx : Option TxId} {p : Phase} {call : Call}
      {onward : Option (Except StoreError call.Row) → Phase} {l' : Ledger}
      {answer : Except StoreError call.Row}
      (stage : j.stage = .running n tx deadline p none)
      (next : p.next j.plan.movement j.plan.timeout = .awaitBefore call onward)
      (issued : j.issue l now (tx.getD l.nextTx) call = (l',.answered answer)) :
      Steps now l j l' { j with
        calls := j.calls ++ [call]
        stage := .running n (some (tx.getD l.nextTx)) deadline (onward (some answer)) none }
  | waits {n deadline : Nat} {tx : Option TxId} {p : Phase} {call : Call}
      {onward : Option (Except StoreError call.Row) → Phase} {l' : Ledger} {w : Wait}
      (stage : j.stage = .running n tx deadline p none)
      (next : p.next j.plan.movement j.plan.timeout = .awaitBefore call onward)
      (issued : j.issue l now (tx.getD l.nextTx) call = (l',.waiting w)) :
      Steps now l j l' { j with
        calls := j.calls ++ [call]
        stage := .running n (some (tx.getD l.nextTx)) deadline p (some w) }
  | resumed {n deadline : Nat} {tx : Option TxId} {p : Phase} {w : Wait} {call : Call}
      {onward : Option (Except StoreError call.Row) → Phase} {l' : Ledger}
      {answer : Except StoreError call.Row}
      (stage : j.stage = .running n tx deadline p (some w))
      (next : p.next j.plan.movement j.plan.timeout = .awaitBefore call onward)
      (resumed : l.resume now (tx.getD l.nextTx) call w = some (l',.answered answer)) :
      Steps now l j l' { j with
        stage := .running n (some (tx.getD l.nextTx)) deadline (onward (some answer)) none }
  | waitsOn {n deadline : Nat} {tx : Option TxId} {p : Phase} {w w' : Wait} {call : Call}
      {onward : Option (Except StoreError call.Row) → Phase} {l' : Ledger}
      (stage : j.stage = .running n tx deadline p (some w))
      (next : p.next j.plan.movement j.plan.timeout = .awaitBefore call onward)
      (resumed : l.resume now (tx.getD l.nextTx) call w = some (l',.waiting w')) :
      Steps now l j l' { j with
        stage := .running n (some (tx.getD l.nextTx)) deadline p (some w') }
  | late {n deadline : Nat} {tx : Option TxId} {p : Phase} {w : Wait} {call : Call}
      {onward : Option (Except StoreError call.Row) → Phase}
      (stage : j.stage = .running n tx deadline p (some w))
      (next : p.next j.plan.movement j.plan.timeout = .awaitBefore call onward)
      (waiting : l.resume now (tx.getD l.nextTx) call w = none) (late : deadline ≤ now) :
      Steps now l j (l.giveUp (tx.getD l.nextTx) call) { j with
        stage := .running n (some (tx.getD l.nextTx)) deadline (onward none) none }

theorem Phase.of_next_ended {p : Phase} (next : p.next m limit = .ended outcome) :
    p = .ended outcome := by
  cases p <;> simp only [Phase.next,reduceCtorEq,Next.ended.injEq] at next
  rw [next]

theorem Job.step_sound {j j' : Job} (stepped : j.step now l = some (l',j')) :
    j.Steps now l l' j' := by
  unfold Job.step at stepped
  split at stepped
  · cases stepped
  · cases stepped
  · rename_i n time stage
    split at stepped
    · rename_i due
      cases Option.some.inj stepped
      exact .wake stage due
    · cases stepped
  · rename_i n tx deadline p wait stage
    split at stepped
    · rename_i outcome next
      have here := Phase.of_next_ended next
      subst here
      split at stepped
      · rename_i ticks again
        cases Option.some.inj stepped
        exact .rest stage again
      · rename_i enough
        cases Option.some.inj stepped
        exact .finish stage enough
    · rename_i call onward next
      dsimp only at stepped
      split at stepped
      · rename_i issued
        cases Option.some.inj stepped
        exact .await stage next issued
      · cases stepped
    · rename_i call onward next
      dsimp only at stepped
      split at stepped
      · rename_i issued
        cases Option.some.inj stepped
        exact .answered stage next issued
      · rename_i issued
        cases Option.some.inj stepped
        exact .waits stage next issued
    · rename_i call onward w next
      dsimp only at stepped
      split at stepped
      · rename_i resumed
        cases Option.some.inj stepped
        exact .resumed stage next resumed
      · rename_i resumed
        cases Option.some.inj stepped
        exact .waitsOn stage next resumed
      · rename_i waiting
        split at stepped
        · rename_i late
          cases Option.some.inj stepped
          exact .late stage next waiting late
        · cases stepped

-- Where a transfer stands fits what its transaction has done.
inductive Phase.Consistent (m : Movement) (l : Ledger) :
    Option TxId → Option Wait → Phase → Prop where
  | opening (checked : m.check = .ok ()) : Consistent m l none none .opening
  | inside {t : TxId} {s : TxView} {w : Option Wait} {p : Phase} (checked : m.check = .ok ())
      (rests : p.Rests m l t s) (view : l.HasView t (s.awaiting w (p.asks m))) :
      Consistent m l (some t) w p
  | ended {tx : Option TxId} {w : Option Wait} {outcome : Outcome} :
      Consistent m l tx w (.ended outcome)

namespace Stage

def tx? : Stage → Option TxId
  | running _ _ _ .opening _ | running _ _ _ (.ended _) _ => none
  | running _ tx _ _ _ => tx
  | _ => none

-- A quiet step goes on with the attempt, or goes from its answer to a rest or to the end, or from a
-- rest to the next attempt. No attempt succeeds quietly.
inductive Follows (plan : JobPlan) : Stage → Stage → Prop where
  | goesOn {n d d' : Nat} {tx tx' : Option TxId} {p p' : Phase} {w w' : Option Wait}
      (unended : ∀ outcome, p ≠ .ended outcome) (unanswered : ∀ r, p' ≠ .ended (.ok r)) :
      Follows plan (running n tx d p w) (running n tx' d' p' w')
  | rests {n d time ticks : Nat} {tx : Option TxId} {outcome : Outcome} {w : Option Wait}
      (again : plan.policy.again? n outcome = some ticks) :
      Follows plan (running n tx d (.ended outcome) w) (resting (n + 1) time)
  | finishes {n d time : Nat} {tx : Option TxId} {outcome : Outcome} {w : Option Wait}
      (enough : plan.policy.again? n outcome = none) :
      Follows plan (running n tx d (.ended outcome) w) (finished outcome time)
  | wakes {n time : Nat} : Follows plan (resting n time) (.attempt plan n)

end Stage

namespace Job
variable {l l' : Ledger} {j j' : Job} {now : Nat}

def tx? (j : Job) : Option TxId := j.stage.tx?

def Consistent (l : Ledger) (j : Job) : Prop :=
  ∀ n tx d p w, j.stage = .running n tx d p w → p.Consistent j.plan.movement l tx w

-- The whole transfer, written in one step.
structure Writes (m : Movement) (r : Receipt) (l l' : Ledger) : Prop where
  checked : m.check = .ok ()
  books : l'.books = l.books.enter m r
  transfer : m.Records r.transfer
  debit : m.Debits r.debit
  credit : m.Credits r.credit
  source : l'.account? m.source = some r.source
  destination : l'.account? m.destination = some r.destination
  committed : l'.committed = l.committed + 1
  acknowledgement : l'.fault? .commitAcknowledgement = none

theorem Writes.transfers (writes : Writes m r l l') :
    l'.transfers = l.transfers ++ [r.transfer] :=
  congrArg Books.transfers writes.books

theorem Writes.entries (writes : Writes m r l l') :
    l'.entries = l.entries ++ [r.debit,r.credit] :=
  congrArg Books.entries writes.books

theorem Writes.grows (writes : Writes m r l l') : l.Grows l' :=
  ⟨writes.entries ▸ List.prefix_append _ _,writes.transfers ▸ List.prefix_append _ _⟩

inductive Does (l : Ledger) (j : Job) (l' : Ledger) (j' : Job) : Prop where
  | quietly (quiet : Ledger.Quiet l l') (follows : j.stage.Follows j.plan j'.stage)
  | writes {n d : Nat} {tx tx' : Option TxId} {r : Receipt} {w : Option Wait}
      (stage : j.stage = .running n tx d (.committing r) w)
      (writes : Writes j.plan.movement r l l') (armed : l.fault? .commitAcknowledgement = none)
      (answered : j'.stage = .running n tx' d (.ended (.ok r)) none)
  | unacknowledged {n d : Nat} {tx tx' : Option TxId} {r : Receipt} {w : Option Wait}
      {e : StoreError} (stage : j.stage = .running n tx d (.committing r) w)
      (writes : Writes j.plan.movement r l l') (armed : l.fault? .commitAcknowledgement = some e)
      (answered : j'.stage = .running n tx' d (.ended (.error (.store .commit e))) none)

-- The transaction on whose behalf a job makes its next step.
def acting (l : Ledger) (j : Job) : TxId := j.tx?.getD l.nextTx

structure Moves (l : Ledger) (j : Job) (l' : Ledger) (j' : Job) : Prop where
  plan : j'.plan = j.plan
  acts : Ledger.Acts (j.acting l) l l'
  consistent : j'.Consistent l'
  owns : j'.tx? = some (j.acting l) ∨ j'.tx? = none ∧ ¬l'.Live (j.acting l)
  does : Does l j l' j'

theorem tx?_of_rests {p : Phase} (rests : p.Rests m l t s) (n d : Nat) (w : Option Wait) :
    (Stage.running n (some t) d p w).tx? = some t := by
  cases p <;> first | rfl | cases rests

theorem unended_of_rests {p : Phase} (rests : p.Rests m l t s) (outcome : Outcome) :
    p ≠ .ended outcome := by
  rintro rfl
  cases rests

theorem tx?_attempt (plan : JobPlan) (n : Nat) : (Stage.attempt plan n).tx? = none := by
  unfold Stage.attempt Phase.start
  split <;> rfl

theorem consistent_attempt (stage : j.stage = .attempt j.plan n) : j.Consistent l := by
  intro _ _ _ _ _ here
  rw [stage] at here
  cases here
  unfold Phase.start
  split
  · rename_i valid
    exact .opening valid
  · exact .ended

theorem start_stage (now : Nat) (l : Ledger) (plan : JobPlan) :
    (start now l plan).stage = .attempt plan 0 ∨
      ∃ e, (start now l plan).stage = .finished (.error e) now := by
  unfold start
  cases plan.retry with
  | none => exact .inl rfl
  | some policy =>
    dsimp only
    split
    · exact .inl rfl
    · exact .inr ⟨_,rfl⟩

theorem start_consistent (now : Nat) (l : Ledger) (plan : JobPlan) :
    (start now l plan).Consistent l := by
  rcases start_stage now l plan with stage | ⟨e,stage⟩
  · exact consistent_attempt stage
  · intro _ _ _ _ _ here
    rw [stage] at here
    cases here

theorem tx?_start (now : Nat) (l : Ledger) (plan : JobPlan) : (start now l plan).tx? = none := by
  unfold tx?
  rcases start_stage now l plan with stage | ⟨e,stage⟩
  · rw [stage]
    exact tx?_attempt plan 0
  · rw [stage]
    rfl

-- Between two attempts and at the end of one, no transaction is open.
theorem moves_idle (sound : l.Sound) (plan : j'.plan = j.plan) (none : j.tx? = none)
    (none' : j'.tx? = .none) (consistent : j'.Consistent l)
    (follows : j.stage.Follows j.plan j'.stage) :
    Moves l j l j' := by
  refine ⟨plan,.refl sound _,consistent,.inr ⟨none',?_⟩,.quietly (.refl l) follows⟩
  rw [acting,none]
  exact Ledger.not_live_nextTx sound

section Inside
variable {n d d' : Nat} {t : TxId} {p p' : Phase} {w w' : Option Wait} {s s' : TxView}

theorem acting_of_rests (stage : j.stage = .running n (some t) d p w)
    (rests : p.Rests m l t s) : j.acting l = t := by
  rw [acting,tx?,stage,tx?_of_rests rests]
  rfl

theorem moves_inside (stage : j.stage = .running n (some t) d p w)
    (checked : j.plan.movement.check = .ok ()) (rests : p.Rests j.plan.movement l t s)
    (acts : l.Acts t l') (quiet : l.Quiet l') (rests' : p'.Rests j.plan.movement l' t s')
    (view : l'.HasView t (s'.awaiting w' (p'.asks j.plan.movement))) (plan : j'.plan = j.plan)
    (stage' : j'.stage = .running n (some t) d' p' w') : Moves l j l' j' := by
  have acting := acting_of_rests stage rests
  refine ⟨plan,acting ▸ acts,?_,.inl ?_,.quietly quiet ?_⟩
  · intro _ _ _ _ _ here
    rw [stage'] at here
    cases here
    rw [plan]
    exact .inside checked rests' view
  · rw [tx?,stage',tx?_of_rests rests',acting]
  · rw [stage,stage']
    exact .goesOn (unended_of_rests rests) fun r => unended_of_rests rests' _

theorem moves_closing (stage : j.stage = .running n (some t) d p w)
    (rests : p.Rests j.plan.movement l t s) (closes : l.Closes t l') (plan : j'.plan = j.plan)
    (stage' : j'.stage = .running n tx' d' (.ended outcome) w') (does : Does l j l' j') :
    Moves l j l' j' := by
  have acting := acting_of_rests stage rests
  refine ⟨plan,acting ▸ closes.acts,?_,.inr ⟨?_,acting ▸ closes.gone⟩,does⟩
  · intro _ _ _ _ _ here
    rw [stage'] at here
    cases here
    exact .ended
  · rw [tx?,stage']
    rfl

section Calls
variable {call : Call} {onward : Option (Except StoreError call.Row) → Phase}

theorem moves_answered {answer : Except StoreError call.Row}
    (stage : j.stage = .running n (some t) d p w) (checked : j.plan.movement.check = .ok ())
    (rests : p.Rests j.plan.movement l t s)
    (next : p.next j.plan.movement j.plan.timeout = .awaitBefore call onward)
    (inside : call.Inside) (view : l.HasView t (s.awaiting w call))
    (rolls : ∀ e, ∃ step, onward (some (.error e)) = .rollingBack (.store step e))
    (yields : l.Yields t s call (l',.answered answer)) (plan : j'.plan = j.plan)
    (stage' : j'.stage = .running n (some t) d (onward (some answer)) none) : Moves l j l' j' := by
  cases yields with
  | @row _ row acts quiet view' shows =>
    have different := (Movement.check_eq_ok.mp checked).1
    have rests' := rests.onward different next inside shows fun id other =>
      view.draft?_kept view' quiet other
    have settled : l'.HasView t ((s.after call row).awaiting none
        ((onward (some (.ok row))).asks j.plan.movement)) := view'
    exact moves_inside stage checked rests acts quiet rests' settled plan stage'
  | @error _ s' e acts quiet view' keeps =>
    obtain ⟨step,rolling⟩ := rolls e
    rw [rolling] at stage'
    have rests' : (Phase.rollingBack (.store step e)).Rests j.plan.movement l' t s' := keeps.idle
    have settled : l'.HasView t (s'.awaiting none .rollback) := view'
    exact moves_inside stage checked rests acts quiet rests' settled plan stage'

theorem moves_waits {w' : Wait} (stage : j.stage = .running n (some t) d p w)
    (checked : j.plan.movement.check = .ok ()) (rests : p.Rests j.plan.movement l t s)
    (asked : call = p.asks j.plan.movement) (yields : l.Yields t s call (l',.waiting w'))
    (plan : j'.plan = j.plan) (stage' : j'.stage = .running n (some t) d p (some w')) :
    Moves l j l' j' := by
  cases yields with
  | waits acts quiet own view' =>
    exact moves_inside stage checked rests acts quiet (rests.of_own own) (asked ▸ view') plan
      stage'

theorem moves_late {w : Wait} (sound : l.Sound) (stage : j.stage = .running n (some t) d p (some w))
    (checked : j.plan.movement.check = .ok ()) (rests : p.Rests j.plan.movement l t s)
    (inside : call.Inside) (view : l.HasView t (s.awaiting (some w) call))
    (waiting : l.resume now t call w = none) (rolls : onward none = .rollingBack cause)
    (plan : j'.plan = j.plan)
    (stage' : j'.stage = .running n (some t) d (onward none) none) :
    Moves l j (l.giveUp t call) j' := by
  obtain ⟨acts,quiet,s',view',keeps⟩ := Ledger.giveUp_keeps sound view rests.idle inside waiting
  rw [rolls] at stage'
  have rests' : (Phase.rollingBack cause).Rests j.plan.movement (l.giveUp t call) t s' := keeps.idle
  have settled : (l.giveUp t call).HasView t (s'.awaiting none .rollback) := view'
  exact moves_inside stage checked rests acts quiet rests' settled plan stage'

end Calls

-- What a committing transfer has in view is the whole movement and nothing else.
theorem writes_of_posts {m : Movement} {r : Receipt} (checked : m.check = .ok ())
    (rests : (Phase.committing r).Rests m l t s) (view : l.HasView t s) (posts : l.Posts s l') :
    Writes m r l l' := by
  obtain ⟨records,debits,credits,rfl,source,destination⟩ := rests
  have shifted : (TxView.mk [r.transfer] [r.debit,r.credit] [m.updates.1,m.updates.2]
      [m.updates.1.account,m.updates.2.account] none).draft = m.shift := by
    funext a
    simp only [TxView.draft,Movement.shift,Movement.total_updates]
  refine ⟨checked,?_,records,debits,credits,view.account?_posted posts.books source,
    view.account?_posted posts.books destination,posts.committed,posts.acknowledgement⟩
  rw [posts.books,Books.post,shifted]
  rfl

theorem moves_settled {r : Receipt} {answer : Except StoreError Unit}
    (stage : j.stage = .running n (some t) d (.committing r) w)
    (checked : j.plan.movement.check = .ok ())
    (rests : (Phase.committing r).Rests j.plan.movement l t s) (view : l.HasView t s)
    (settles : l.Settles t s (l',.answered answer)) (plan : j'.plan = j.plan)
    (stage' : j'.stage = .running n (some t) d
      (match answer with
        | .ok () => .ended (.ok r)
        | .error e => .ended (.error (.store .commit e))) none) : Moves l j l' j' := by
  cases settles with
  | refused closes quiet =>
    refine moves_closing stage rests closes plan stage' (.quietly quiet ?_)
    rw [stage,stage']
    exact .goesOn (unended_of_rests rests) (by simp)
  | posted closes posts armed =>
    exact moves_closing stage rests closes plan stage'
      (.writes stage (writes_of_posts checked rests view posts) armed stage')
  | unacknowledged closes posts armed =>
    exact moves_closing stage rests closes plan stage'
      (.unacknowledged stage (writes_of_posts checked rests view posts) armed stage')

theorem moves_held {r : Receipt} {w' : Wait} (sound : l.Sound)
    (stage : j.stage = .running n (some t) d (.committing r) w)
    (checked : j.plan.movement.check = .ok ())
    (rests : (Phase.committing r).Rests j.plan.movement l t s) (view : l.HasView t s)
    (settles : l.Settles t s (l',.waiting w')) (plan : j'.plan = j.plan)
    (stage' : j'.stage = .running n (some t) d (.committing r) (some w')) : Moves l j l' j' := by
  cases settles
  have settled : l.HasView t (s.awaiting (some w') .commit) := by rwa [TxView.awaiting_commit]
  exact moves_inside stage checked rests (.refl sound t) (.refl l) rests settled plan stage'

end Inside

section Issuing
variable {t : TxId} {s : TxView} {call : Call}

-- A planned failure never reaches the ledger, except that a commit or a rollback which fails so
-- leaves nothing open.
theorem issue_cases (j : Job) (l : Ledger) (now : Nat) (t : TxId) (call : Call) :
    (∃ e, j.issue l now t call = (fail l t call,.answered (.error e))) ∨
      j.issue l now t call = l.start now t call := by
  unfold issue
  cases planned : j.plan.failure? j.calls call.kind with
  | some e => exact .inl ⟨e,rfl⟩
  | none => exact .inr rfl

theorem issue_yields (j : Job) (now : Nat) (sound : l.Sound) (view : l.HasView t s)
    (idle : s.sought = none) (inside : call.Inside) : l.Yields t s call (j.issue l now t call) := by
  rcases issue_cases j l now t call with ⟨e,failed⟩ | started
  · have kept : fail l t call = l := by
      cases call <;> first | rfl | cases inside
    rw [failed,kept]
    exact Ledger.yields_same sound view idle call e
  · rw [started]
    exact Ledger.start_yields sound view idle inside

theorem issue_settles (j : Job) (now : Nat) (sound : l.Sound) (view : l.HasView t s) :
    l.Settles t s (j.issue l now t .commit) := by
  rcases issue_cases j l now t .commit with ⟨e,failed⟩ | started
  · rw [failed]
    exact .refused (Ledger.closes_discard sound t) (Ledger.quiet_discard l t)
  · rw [started]
    exact Ledger.start_settles sound view

theorem issue_rollback (sound : l.Sound) {out : Ledger × Progress Unit}
    (issued : j.issue l now t .rollback = out) : l.Closes t out.1 ∧ l.Quiet out.1 := by
  subst issued
  rcases issue_cases j l now t .rollback with ⟨e,failed⟩ | started
  · rw [failed]
    exact ⟨Ledger.closes_discard sound t,Ledger.quiet_discard l t⟩
  · rw [started]
    exact ⟨Ledger.closes_rollback sound t,Ledger.quiet_rollback l t⟩

theorem issue_begin (sound : l.Sound) {answer : Except StoreError Unit}
    (issued : j.issue l now l.nextTx .begin = (l',.answered answer)) :
    l.Acts l.nextTx l' ∧ l.Quiet l' ∧
      (answer = .ok () ∧ l'.HasView l.nextTx {} ∨ ∃ e, answer = .error e ∧ ¬l'.Live l.nextTx) := by
  rcases issue_cases j l now l.nextTx .begin with ⟨e,failed⟩ | started
  · rw [failed] at issued
    cases issued
    exact ⟨.refl sound _,.refl l,.inr ⟨e,rfl,Ledger.not_live_nextTx sound⟩⟩
  · rw [started] at issued
    cases issued
    exact Ledger.begin_opens sound

theorem moves_opening {n d d' : Nat} {w : Option Wait} {answer : Except StoreError Unit}
    (sound : l.Sound) (stage : j.stage = .running n none d .opening w)
    (checked : j.plan.movement.check = .ok ())
    (issued : j.issue l now l.nextTx .begin = (l',.answered answer)) (plan : j'.plan = j.plan)
    (stage' : j'.stage = .running n (some l.nextTx) d'
      (match answer with
        | .ok () => .recording
        | .error e => .ended (.error (.store .begin e))) none) : Moves l j l' j' := by
  have acting : j.acting l = l.nextTx := by
    rw [Job.acting,tx?,stage]
    rfl
  obtain ⟨acts,quiet,opened⟩ := issue_begin sound issued
  rcases opened with ⟨rfl,view⟩ | ⟨e,rfl,gone⟩
  · refine ⟨plan,acting ▸ acts,?_,.inl ?_,.quietly quiet ?_⟩
    · intro _ _ _ _ _ here
      rw [stage'] at here
      cases here
      rw [plan]
      exact .inside checked (rfl : Phase.recording.Rests _ l' _ {}) view
    · rw [acting,tx?,stage']
      rfl
    · rw [stage,stage']
      exact .goesOn (by simp) (by simp)
  · refine ⟨plan,acting ▸ acts,?_,.inr ⟨?_,acting ▸ gone⟩,.quietly quiet ?_⟩
    · intro _ _ _ _ _ here
      rw [stage'] at here
      cases here
      exact .ended
    · rw [tx?,stage']
      rfl
    · rw [stage,stage']
      exact .goesOn (by simp) (by simp)

end Issuing

-- The two calls that no deadline cuts short: the opening of the transaction and the rollback.
theorem moves_awaited {n d d' : Nat} {tx : Option TxId} {p : Phase} {w : Option Wait} {call : Call}
    {onward : Except StoreError call.Row → Phase} {answer : Except StoreError call.Row}
    (sound : l.Sound) (consistent : j.Consistent l) (stage : j.stage = .running n tx d p w)
    (next : p.next j.plan.movement j.plan.timeout = .await call onward)
    (issued : j.issue l now (tx.getD l.nextTx) call = (l',.answered answer))
    (plan : j'.plan = j.plan)
    (stage' : j'.stage = .running n (some (tx.getD l.nextTx)) d' (onward answer) none) :
    Moves l j l' j' := by
  cases consistent _ _ _ _ _ stage with
  | ended => simp only [Phase.next,reduceCtorEq] at next
  | opening checked =>
    cases next
    exact moves_opening sound stage checked issued plan (by rw [stage']; cases answer <;> rfl)
  | inside checked rests view =>
    rename_i t s
    rw [Option.getD_some] at issued
    cases p with
    | opening | ended _ => cases rests
    | recording | debiting _ | crediting _ _ | updatingFirst _ _ _ | updatingSecond _ _ _ _
    | committing _ => simp only [Phase.next,reduceCtorEq] at next
    | rollingBack cause =>
      cases next
      obtain ⟨closes,quiet⟩ := issue_rollback sound issued
      refine moves_closing stage rests closes plan stage' (.quietly quiet ?_)
      rw [stage,stage']
      exact .goesOn (unended_of_rests rests) (by simp)

-- Only a phase inside the transaction makes a call that is given up at the deadline.
theorem consistent_inside {n d : Nat} {tx : Option TxId} {p : Phase} {w : Option Wait} {call : Call}
    {onward : Option (Except StoreError call.Row) → Phase} (consistent : j.Consistent l)
    (stage : j.stage = .running n tx d p w)
    (next : p.next j.plan.movement j.plan.timeout = .awaitBefore call onward) :
    ∃ t s, tx = some t ∧ j.plan.movement.check = .ok () ∧ p.Rests j.plan.movement l t s ∧
      l.HasView t (s.awaiting w (p.asks j.plan.movement)) := by
  cases consistent _ _ _ _ _ stage with
  | opening checked => simp only [Phase.next,reduceCtorEq] at next
  | ended => simp only [Phase.next,reduceCtorEq] at next
  | inside checked rests view => exact ⟨_,_,rfl,checked,rests,view⟩

theorem step_moves (sound : l.Sound) (consistent : j.Consistent l)
    (stepped : j.step now l = some (l',j')) :
    Moves l j l' j' := by
  cases step_sound stepped with
  | wake stage due =>
    refine moves_idle sound rfl (by rw [tx?,stage]; rfl) (tx?_attempt _ _) (consistent_attempt rfl) ?_
    rw [stage]
    exact .wakes
  | rest stage again =>
    refine moves_idle sound rfl (by rw [tx?,stage]; rfl) rfl ?_ ?_
    · intro _ _ _ _ _ here
      cases here
    · rw [stage]
      exact .rests again
  | finish stage enough =>
    refine moves_idle sound rfl (by rw [tx?,stage]; rfl) rfl ?_ ?_
    · intro _ _ _ _ _ here
      cases here
    · rw [stage]
      exact .finishes enough
  | await stage next issued => exact moves_awaited sound consistent stage next issued rfl rfl
  | answered stage next issued =>
    obtain ⟨t,s,rfl,checked,rests,view⟩ := consistent_inside consistent stage next
    rw [Option.getD_some] at issued
    rcases Phase.inside_or_committing next with ⟨rfl,inside,_,rolls⟩ | ⟨r,rfl⟩
    · have yields := issue_yields j now sound view rests.idle inside
      rw [issued] at yields
      exact moves_answered stage checked rests next inside view rolls yields rfl rfl
    · cases next
      rw [Phase.asks,TxView.awaiting_commit] at view
      have settles : l.Settles t s _ := issue_settles j now sound view
      rw [issued] at settles
      exact moves_settled stage checked rests view settles rfl
        (by rename_i answer; cases answer <;> rfl)
  | waits stage next issued =>
    obtain ⟨t,s,rfl,checked,rests,view⟩ := consistent_inside consistent stage next
    rw [Option.getD_some] at issued
    rcases Phase.inside_or_committing next with ⟨rfl,inside,_,_⟩ | ⟨r,rfl⟩
    · have yields := issue_yields j now sound view rests.idle inside
      rw [issued] at yields
      exact moves_waits stage checked rests rfl yields rfl rfl
    · cases next
      rw [Phase.asks,TxView.awaiting_commit] at view
      have settles : l.Settles t s _ := issue_settles j now sound view
      rw [issued] at settles
      exact moves_held sound stage checked rests view settles rfl rfl
  | resumed stage next resumed =>
    obtain ⟨t,s,rfl,checked,rests,view⟩ := consistent_inside consistent stage next
    rcases Phase.inside_or_committing next with ⟨rfl,inside,_,rolls⟩ | ⟨r,rfl⟩
    · have yields := Ledger.resume_yields sound view rests.idle inside resumed
      exact moves_answered stage checked rests next inside view rolls yields rfl rfl
    · cases next
      rw [Phase.asks,TxView.awaiting_commit] at view
      have settles : l.Settles t s _ := Ledger.resume_settles sound view resumed
      exact moves_settled stage checked rests view settles rfl
        (by rename_i answer; cases answer <;> rfl)
  | waitsOn stage next resumed =>
    obtain ⟨t,s,rfl,checked,rests,view⟩ := consistent_inside consistent stage next
    rcases Phase.inside_or_committing next with ⟨rfl,inside,_,_⟩ | ⟨r,rfl⟩
    · have yields := Ledger.resume_yields sound view rests.idle inside resumed
      exact moves_waits stage checked rests rfl yields rfl rfl
    · cases next
      rw [Phase.asks,TxView.awaiting_commit] at view
      have settles : l.Settles t s _ := Ledger.resume_settles sound view resumed
      exact moves_held sound stage checked rests view settles rfl rfl
  | late stage next waiting late =>
    obtain ⟨t,s,rfl,checked,rests,view⟩ := consistent_inside consistent stage next
    rcases Phase.inside_or_committing next with ⟨rfl,inside,rolls,_⟩ | ⟨r,rfl⟩
    · exact moves_late sound stage checked rests inside view waiting rolls rfl rfl
    · cases next
      have quiet := Ledger.quiet_discard l t
      refine moves_closing stage rests (Ledger.closes_discard sound t) rfl rfl (.quietly quiet ?_)
      rw [stage]
      exact .goesOn (unended_of_rests rests) (by simp)

theorem abort_closes (sound : l.Sound) (consistent : j.Consistent l)
    (free : j.stage.interruptible = true) :
    l.Closes (j.acting l) (j.abort l).1 ∧ l.Quiet (j.abort l).1 ∧
      (j.abort l).2 = { j with stage := .cancelled } := by
  have resting : j.tx? = none → l.Closes (j.acting l) l := by
    intro none
    rw [acting,none]
    exact ⟨.refl sound _,Ledger.not_live_nextTx sound⟩
  unfold abort
  cases stage : j.stage with
  | finished _ _ | cancelled =>
    rw [stage] at free
    cases free
  | resting n time => exact ⟨resting (by rw [tx?,stage]; rfl),.refl l,rfl⟩
  | running n tx d p w =>
    cases consistent n tx d p w stage with
    | opening checked => exact ⟨resting (by rw [tx?,stage]; rfl),.refl l,rfl⟩
    | ended =>
      rw [stage] at free
      cases free
    | inside checked rests view =>
      rw [acting_of_rests stage rests]
      exact ⟨Ledger.closes_discard sound _,Ledger.quiet_discard l _,rfl⟩

end Job
end DoubleEntry
