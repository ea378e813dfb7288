import DoubleEntry.Proofs.Deadlock

namespace DoubleEntry

namespace Ledger
variable {l l' : Ledger} {tx : TxId} {now : Nat}

def Clear (out : Ledger × Progress α) : Prop :=
  out.1.faults = [] ∧ ∀ e, out.2 ≠ .answered (.error e)

theorem Clear.row {answer : Except StoreError α} (clear : Clear (l,.answered answer)) :
    ∃ row, answer = .ok row := by
  cases answer with
  | error e => exact absurd rfl (clear.2 e)
  | ok row => exact ⟨row,rfl⟩

theorem guarded_unarmed (unarmed : l.faults = []) (p : FaultPoint)
    (work : Ledger × Except StoreError α) : l.guarded p work = work := by
  have none : l.fault? p = none := by simp [fault?,unarmed]
  rw [guarded,none]

-- What the store asks of a call before it grants it. An account is added to only as it is committed.
def Grants (l : Ledger) (tx : TxId) : Call → Prop
  | .insertTransfer source destination amount =>
    0 < amount ∧ source ≠ destination ∧ (∃ a, l.account? source = some a) ∧
      ∃ a, l.account? destination = some a
  | .insertEntry account _ => ∃ a, l.account? account = some a
  | .addToBalance id delta =>
    ∃ a, l.account? id = some a ∧ l.version? tx id = some a ∧ Bigint.Fits (a.balance + delta)
  | .begin | .commit | .rollback => True

theorem applyDelta_clear {id : AccountId} {delta : Int} {a : Account} (unarmed : l.faults = [])
    (seen : l.version? tx id = some a) (fits : Bigint.Fits (a.balance + delta)) :
    Clear ((l.applyDelta tx id delta).1,.answered (l.applyDelta tx id delta).2) := by
  have sum : Bigint.add? a.balance delta = some (a.balance + delta) :=
    Bigint.add?_eq_some.mpr ⟨fits,rfl⟩
  simp only [applyDelta,seen,sum]
  exact ⟨unarmed,by simp⟩

theorem hold_clear {id : AccountId} {delta : Int} {a : Account} (unarmed : l.faults = [])
    (seen : l.version? tx id = some a) (fits : Bigint.Fits (a.balance + delta)) :
    Clear (l.hold now tx id delta) := by
  unfold hold
  split
  · exact ⟨unarmed,by simp⟩
  · exact applyDelta_clear unarmed seen fits

theorem commit_clear (unarmed : l.faults = []) (tx : TxId) :
    Clear ((l.commit tx).1,.answered (l.commit tx).2) := by
  have none : l.fault? .commit = none := by simp [fault?,unarmed]
  unfold commit
  simp only [none]
  cases l.tx? tx with
  | none =>
    rw [guarded_unarmed (l := l.discard tx) unarmed]
    exact ⟨unarmed,by simp⟩
  | some t =>
    rw [guarded_unarmed (l := (l.apply t).discard tx) unarmed]
    exact ⟨unarmed,by simp⟩

theorem start_clear {call : Call} (unarmed : l.faults = []) (grants : l.Grants tx call) :
    Clear (l.start now tx call) := by
  cases call with
  | begin =>
    simp only [start,begin,guarded_unarmed unarmed]
    exact ⟨unarmed,by simp⟩
  | insertTransfer source destination amount =>
    obtain ⟨positive,different,⟨a,found⟩,⟨a',found'⟩⟩ := grants
    have valid : ¬(amount ≤ 0 ∨ source = destination) := by
      rintro (none | same)
      · exact Int.not_le.mpr positive none
      · exact different same
    have both : ([source,destination].find? fun id => (l.account? id).isNone) = none := by
      simp [found,found']
    simp only [start,insertTransfer,guarded_unarmed unarmed,if_neg valid,both]
    exact ⟨unarmed,by simp⟩
  | insertEntry account amount =>
    obtain ⟨a,found⟩ := grants
    simp only [start,insertEntry,guarded_unarmed unarmed,found,Option.isNone_some]
    exact ⟨unarmed,by simp⟩
  | addToBalance id delta =>
    obtain ⟨a,found,seen,fits⟩ := grants
    obtain ⟨r,row,_⟩ := Option.map_eq_some_iff.mp found
    simp only [start,requestRow,guarded_unarmed unarmed,row]
    by_cases mine : r.holder = some tx
    · rw [if_pos mine]
      exact applyDelta_clear unarmed seen fits
    · rw [if_neg mine]
      have seen' : (l.updateRow id (Row.request tx)).version? tx id = some a := by
        rw [← seen,version?,version?,account?_updateRow (Row.account_request tx)]
        rfl
      by_cases free : r.holder = none
      · rw [if_pos free]
        exact hold_clear (l := l.updateRow id (Row.request tx)) unarmed seen' fits
      · rw [if_neg free]
        exact ⟨unarmed,by simp⟩
  | commit =>
    simp only [start]
    split
    · exact ⟨unarmed,by simp⟩
    · exact commit_clear unarmed tx
  | rollback => exact ⟨unarmed,by simp [start]⟩

theorem resume_clear {call : Call} {w : Wait} {out : Ledger × Progress call.Row}
    (unarmed : l.faults = []) (grants : l.Grants tx call)
    (resumed : l.resume now tx call w = some out) : Clear out := by
  cases resumed_of_resume resumed with
  | held =>
    obtain ⟨a,_,seen,fits⟩ := grants
    exact hold_clear unarmed seen fits
  | rested =>
    obtain ⟨a,_,seen,fits⟩ := grants
    exact applyDelta_clear unarmed seen fits
  | commits => exact commit_clear unarmed tx

structure Affords (l : Ledger) (m : Movement) : Prop where
  source : ∃ a, l.account? m.source = some a ∧ Bigint.Fits (a.balance + -m.amount)
  destination : ∃ a, l.account? m.destination = some a ∧ Bigint.Fits (a.balance + m.amount)

theorem Affords.first {m : Movement} (affords : l.Affords m) :
    ∃ a, l.account? m.updates.1.account = some a ∧ Bigint.Fits (a.balance + m.updates.1.delta) := by
  rcases Movement.updates_cases m with order | order <;> rw [order]
  · exact affords.source
  · exact affords.destination

theorem Affords.second {m : Movement} (affords : l.Affords m) :
    ∃ a, l.account? m.updates.2.account = some a ∧ Bigint.Fits (a.balance + m.updates.2.delta) := by
  rcases Movement.updates_cases m with order | order <;> rw [order]
  · exact affords.destination
  · exact affords.source

theorem HasView.grants {s : TxView} {id : AccountId} {delta : Int} (view : l.HasView tx s)
    (untouched : ¬s.Touches id)
    (bears : ∃ a, l.account? id = some a ∧ Bigint.Fits (a.balance + delta)) :
    l.Grants tx (.addToBalance id delta) := by
  obtain ⟨a,found,fits⟩ := bears
  refine ⟨a,found,?_,fits⟩
  rw [view.version?,found,Option.map_some,TxView.draft_untouched]
  rwa [id_of_account? found]

end Ledger

def Phase.OnCourse : Phase → Prop
  | rollingBack _ | ended (.error _) => False
  | _ => True

-- Every call of a transfer that has not failed is granted where both accounts bear the movement.
theorem Phase.Rests.grants {p : Phase} {m : Movement} {l : Ledger} {t : TxId} {s : TxView}
    {w : Option Wait} (rests : p.Rests m l t s) (course : p.OnCourse)
    (checked : m.check = .ok ()) (affords : l.Affords m)
    (view : l.HasView t (s.awaiting w (p.asks m))) : l.Grants t (p.asks m) := by
  obtain ⟨different,positive⟩ := Movement.check_eq_ok.mp checked
  have touches (id : AccountId) : (s.awaiting w (p.asks m)).Touches id ↔ s.Touches id := by
    rw [TxView.Touches,TxView.deltas_awaiting,TxView.Touches]
  cases p with
  | opening | ended => cases rests
  | rollingBack => cases course
  | recording =>
    exact ⟨positive,different,affords.source.imp fun _ h => h.1,
      affords.destination.imp fun _ h => h.1⟩
  | debiting => exact affords.source.imp fun _ h => h.1
  | crediting => exact affords.destination.imp fun _ h => h.1
  | committing => trivial
  | updatingFirst transfer debit credit =>
    obtain ⟨_,_,_,rfl⟩ := rests
    refine view.grants ?_ affords.first
    rw [touches]
    rintro ⟨u,member,_⟩
    cases member
  | updatingSecond transfer debit credit first =>
    obtain ⟨_,_,_,rfl,_⟩ := rests
    refine view.grants ?_ affords.second
    rw [touches]
    rintro ⟨u,member,same⟩
    cases List.mem_singleton.mp member
    exact Movement.updates_apart different same

namespace Phase
variable {p : Phase} {m : Movement} {limit : Duration} {call : Call}

theorem onCourse_awaited {onward : Except StoreError call.Row → Phase} (course : p.OnCourse)
    (next : p.next m limit = .await call onward) (row : call.Row) :
    (onward (.ok row)).OnCourse := by
  cases p <;> simp only [Phase.next,reduceCtorEq] at next
  · cases next
    trivial
  · cases course

theorem onCourse_onward {onward : Option (Except StoreError call.Row) → Phase}
    (next : p.next m limit = .awaitBefore call onward) (row : call.Row) :
    (onward (some (.ok row))).OnCourse := by
  cases p <;> simp only [Phase.next,reduceCtorEq] at next
  all_goals
    cases next
    trivial

end Phase

def Stage.OnCourse : Stage → Prop
  | running _ _ _ p _ => p.OnCourse
  | finished (.ok _) _ => True
  | _ => False

namespace Job
variable {l l' : Ledger} {j j' : Job} {now : Nat}

-- A step now would give up a call at its deadline.
def givesUp (now : Nat) (l : Ledger) (j : Job) : Bool :=
  match j.stage with
  | .running _ tx _ p (some w) =>
    (l.resume now (tx.getD l.nextTx) (p.asks j.plan.movement) w).isNone
  | _ => false

theorem issue_plain (plain : j.plan.failures = []) (l : Ledger) (now : Nat) (tx : TxId)
    (call : Call) : j.issue l now tx call = l.start now tx call := by
  simp [issue,JobPlan.failure?,plain]

theorem start_plain (now : Nat) (l : Ledger) {plan : JobPlan} (plain : plan.retry = none)
    (checked : plan.movement.check = .ok ()) :
    (Job.start now l plan).stage = .running 0 none 0 .opening none := by
  simp only [Job.start,plain,Stage.attempt,Phase.start,checked]

section Steps
variable {n d : Nat} {tx : Option TxId} {p : Phase} {call : Call}

theorem step_awaited {w : Option Wait} {answer : Except StoreError call.Row}
    {onward : Except StoreError call.Row → Phase} (plain : j.plan.failures = [])
    (stage : j.stage = .running n tx d p w)
    (next : p.next j.plan.movement j.plan.timeout = .await call onward)
    (started : l.start now (tx.getD l.nextTx) call = (l',.answered answer)) :
    j.step now l = some (l',{ j with
      calls := j.calls ++ [call]
      stage := .running n (some (tx.getD l.nextTx)) (now + j.plan.limit) (onward answer)
        none }) := by
  simp only [step,stage,next,issue_plain plain,started]

theorem step_answered {answer : Except StoreError call.Row}
    {onward : Option (Except StoreError call.Row) → Phase} (plain : j.plan.failures = [])
    (stage : j.stage = .running n tx d p none)
    (next : p.next j.plan.movement j.plan.timeout = .awaitBefore call onward)
    (started : l.start now (tx.getD l.nextTx) call = (l',.answered answer)) :
    j.step now l = some (l',{ j with
      calls := j.calls ++ [call]
      stage := .running n (some (tx.getD l.nextTx)) d (onward (some answer)) none }) := by
  simp only [step,stage,next,issue_plain plain,started]

theorem step_ended {outcome : Outcome} {w : Option Wait} (once : j.plan.retry = none)
    (stage : j.stage = .running n tx d (.ended outcome) w) :
    j.step now l = some (l,{ j with stage := .finished outcome now }) := by
  have enough : j.plan.policy.again? n outcome = none := by
    cases outcome <;> simp [JobPlan.policy,once,RetryPolicy.again?]
  simp only [step,stage,Phase.next,enough]

end Steps

section Clear
variable {n d : Nat} {tx : Option TxId} {p : Phase} {w : Option Wait} {call : Call}
  {onward : Option (Except StoreError call.Row) → Phase} {out : Ledger × Progress call.Row}

theorem grants_asked (consistent : j.Consistent l) (stage : j.stage = .running n tx d p w)
    (course : p.OnCourse) (affords : j.stage.call?.isSome = true → l.Affords j.plan.movement)
    (next : p.next j.plan.movement j.plan.timeout = .awaitBefore call onward) :
    l.Grants (tx.getD l.nextTx) call := by
  obtain ⟨t,s,rfl,checked,rests,view⟩ := consistent_inside consistent stage next
  obtain rfl := Phase.asks_of_next next
  rw [stage,Stage.call?_running (unended_of_rests rests)] at affords
  exact rests.grants course checked (affords rfl) view

theorem issued_clear (unarmed : l.faults = []) (plain : j.plan.failures = [])
    (grants : l.Grants (tx.getD l.nextTx) call)
    (issued : j.issue l now (tx.getD l.nextTx) call = out) : Ledger.Clear out := by
  rw [← issued,issue_plain plain]
  exact Ledger.start_clear unarmed grants

end Clear

theorem step_onCourse (consistent : j.Consistent l) (course : j.stage.OnCourse)
    (unarmed : l.faults = [])
    (plain : j.plan.failures = [])
    (affords : j.stage.call?.isSome = true → l.Affords j.plan.movement)
    (patient : j.givesUp now l = false) (stepped : j.step now l = some (l',j')) :
    l'.faults = [] ∧ j'.stage.OnCourse := by
  cases step_sound stepped with
  | wake stage =>
    rw [stage] at course
    cases course
  | @rest _ _ _ _ outcome _ stage again =>
    rw [stage] at course
    cases outcome with
    | ok r => cases again
    | error e => cases course
  | @finish _ _ _ outcome _ stage =>
    rw [stage] at course
    cases outcome with
    | ok r => exact ⟨unarmed,trivial⟩
    | error e => cases course
  | @await _ _ tx p _ call _ _ _ stage next issued =>
    rw [stage] at course
    have grants : l.Grants (tx.getD l.nextTx) call := by
      cases p <;> simp only [Phase.next,reduceCtorEq] at next
      · cases next
        trivial
      · cases course
    have clear := issued_clear unarmed plain grants issued
    obtain ⟨row,rfl⟩ := clear.row
    exact ⟨clear.1,Phase.onCourse_awaited course next row⟩
  | answered stage next issued =>
    rw [stage] at course
    have grants := grants_asked consistent stage course affords next
    have clear := issued_clear unarmed plain grants issued
    obtain ⟨row,rfl⟩ := clear.row
    exact ⟨clear.1,Phase.onCourse_onward next row⟩
  | waits stage next issued =>
    rw [stage] at course
    have grants := grants_asked consistent stage course affords next
    exact ⟨(issued_clear unarmed plain grants issued).1,course⟩
  | resumed stage next resumed =>
    rw [stage] at course
    have grants := grants_asked consistent stage course affords next
    have clear := Ledger.resume_clear unarmed grants resumed
    obtain ⟨row,rfl⟩ := clear.row
    exact ⟨clear.1,Phase.onCourse_onward next row⟩
  | waitsOn stage next resumed =>
    rw [stage] at course
    have grants := grants_asked consistent stage course affords next
    exact ⟨(Ledger.resume_clear unarmed grants resumed).1,course⟩
  | late stage next waiting =>
    obtain rfl := Phase.asks_of_next next
    simp [givesUp,stage,waiting] at patient

-- A job that waits for no row can go on without giving up, at once or when its delay is over.
theorem goes_on_patiently (unsettled : j.stage.settled = false) (course : j.stage.OnCourse)
    (asks : j.Asks) (fits : j.Fits)
    (granted : ∀ id, j.stage.row? = some id → ∃ tx ∈ j.tx?, l.Holds tx id) (now : Nat) :
    ∃ ms, j.step (now + ms) l ≠ none ∧ j.givesUp (now + ms) l = false := by
  cases stage : j.stage with
  | finished | cancelled =>
    rw [stage] at unsettled
    cases unsettled
  | resting =>
    rw [stage] at course
    cases course
  | running n tx d p w =>
    rcases w with _ | (id | time)
    · exact ⟨0,step_of_ready stage,by simp [givesUp,stage]⟩
    · obtain ⟨t,own,held⟩ := granted id (by rw [stage]; rfl)
      obtain rfl : tx = some t := by
        rw [Job.tx?,stage] at own
        cases p <;> cases own <;> rfl
      obtain ⟨delta,asked⟩ := asks _ _ _ _ _ stage
      refine ⟨0,step_of_granted asks fits stage held,?_⟩
      simp only [givesUp,stage]
      generalize p.asks j.plan.movement = call at asked
      subst asked
      simp [Ledger.resume,Ledger.holds_iff.mpr held]
    · obtain ⟨call,onward,next,waits⟩ := fits _ _ _ _ _ stage
      have ready : ∃ out, l.resume (now + (time - now)) (tx.getD l.nextTx) call (.until time) =
          some out := by
        cases resumed : l.resume (now + (time - now)) (tx.getD l.nextTx) call (.until time) with
        | some out => exact ⟨out,rfl⟩
        | none =>
          have early := Ledger.lt_of_resume waits resumed
          omega
      obtain ⟨⟨l',progress⟩,resumed⟩ := ready
      obtain rfl := Phase.asks_of_next next
      refine ⟨time - now,?_,by simp [givesUp,stage,resumed]⟩
      cases progress <;> simp [step,stage,next,resumed]

end Job

end DoubleEntry
