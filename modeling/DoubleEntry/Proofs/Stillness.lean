import Mathlib.Algebra.GroupWithZero.Nat
import DoubleEntry.Proofs.JobSteps
import DoubleEntry.Scenario.World

namespace DoubleEntry

-- The steps that a waiting call has left before it, if nobody is in its way.
def waitWeight : Option Wait → Nat
  | none => 2
  | some (.row _) => 1
  | some (.until _) => 0

-- More than the steps that are left to a job: three for each call, and thirty-two for each attempt.
def Stage.weight (policy : RetryPolicy) : Stage → Nat
  | running n _ _ p w => (policy.maxRetries - n) * 32 + 3 * p.rank + waitWeight w + 1
  | resting n _ => (policy.maxRetries - n) * 32 + 31
  | finished _ _ | cancelled => 0

def Job.weight (j : Job) : Nat := j.stage.weight j.plan.policy

theorem waitWeight_le (w : Option Wait) : waitWeight w ≤ 2 := by
  unfold waitWeight
  split <;> omega

theorem waitWeight_some (w : Wait) : waitWeight (some w) ≤ 1 := by
  cases w <;> simp [waitWeight]

theorem Phase.rank_le (p : Phase) : p.rank ≤ 8 := by
  cases p <;> simp [rank]

theorem Stage.weight_lt (policy : RetryPolicy) (stage : Stage) :
    stage.weight policy < (policy.maxRetries + 1) * 32 := by
  cases stage with
  | finished | cancelled => simp only [weight]; omega
  | resting n time => simp only [weight]; omega
  | running n tx d p w =>
    have := p.rank_le
    have := waitWeight_le w
    simp only [weight]
    omega

def Call.Waits : Call → Wait → Prop
  | addToBalance _ _,_ | commit,.until _ => True
  | _,_ => False

namespace Ledger
variable {l l' : Ledger} {call : Call} {w w' : Wait}

-- Only a call that has waited for a row waits again, and then for the delay.
theorem waits_of_resume (resumed : l.resume now tx call w = some (l',.waiting w')) :
    (∃ id, w = .row id) ∧ ∃ ms, w' = .until (restUntil now ms) := by
  generalize rests : (l',Progress.waiting w') = out at resumed
  cases resumed_of_resume resumed with
  | rested | commits => cases rests
  | @held id asked delta =>
    refine ⟨⟨asked,rfl⟩,?_⟩
    unfold hold at rests
    split at rests
    · rename_i delay _
      cases rests
      exact ⟨delay.ticks,rfl⟩
    · cases rests

theorem lt_of_resume {time : Nat} (waits : call.Waits (.until time))
    (waiting : l.resume now tx call (.until time) = none) : now < time := by
  cases call with
  | begin | insertTransfer | insertEntry | rollback => cases waits
  | addToBalance | commit =>
    simp only [resume] at waiting
    split at waiting
    · cases waiting
    · rename_i early
      exact Nat.lt_of_not_le early

inductive Pauses (now : Nat) : Call → Wait → Prop where
  | queued {id : AccountId} {delta : Int} : Pauses now (.addToBalance id delta) (.row id)
  | holding {id : AccountId} {delta : Int} (delay : Nat) :
      Pauses now (.addToBalance id delta) (.until (restUntil now delay))
  | committing (delay : Nat) : Pauses now .commit (.until (restUntil now delay))

theorem pauses_of_start (started : l.start now tx call = (l',.waiting w)) : Pauses now call w := by
  cases call with
  | begin | insertTransfer | insertEntry | rollback => cases started
  | commit =>
    simp only [start] at started
    split at started
    · cases started
      exact .committing _
    · cases started
  | addToBalance id delta =>
    simp only [start] at started
    split at started
    · cases started
    · cases started
    · unfold hold at started
      split at started
      · cases started
        exact .holding _
      · cases started
    · cases started
      exact .queued

theorem waits_of_start (started : l.start now tx call = (l',.waiting w)) : call.Waits w := by
  cases pauses_of_start started <;> trivial

theorem le_of_start {time : Nat} (started : l.start now tx call = (l',.waiting (.until time))) :
    now ≤ time := by
  cases pauses_of_start started with
  | holding delay | committing delay => exact le_restUntil now delay

theorem waits_resumed (resumed : l.resume now tx call w = some (l',.waiting w')) :
    call.Waits w' := by
  cases call with
  | begin | insertTransfer | insertEntry | rollback => cases w <;> cases resumed
  | addToBalance => trivial
  | commit =>
    obtain ⟨⟨id,rfl⟩,_⟩ := waits_of_resume resumed
    cases resumed

end Ledger

namespace Job
variable {l l' : Ledger} {j j' : Job} {now : Nat}

def Fits (j : Job) : Prop :=
  ∀ n tx d p w, j.stage = .running n tx d p (some w) →
    ∃ call onward, p.next j.plan.movement j.plan.timeout = .awaitBefore call onward ∧ call.Waits w

theorem issue_waits {call : Call} {w : Wait} (issued : j.issue l now tx call = (l',.waiting w)) :
    call.Waits w := by
  rcases issue_cases j l now tx call with ⟨e,failed⟩ | started
  · cases failed.symm.trans issued
  · exact Ledger.waits_of_start (started.symm.trans issued)

theorem step_fits (stepped : j.step now l = some (l',j')) : j'.Fits := by
  intro _ _ _ _ _ stage'
  cases step_sound stepped with
  | wake | rest | finish | await | answered | resumed | late => cases stage'
  | waits stage next issued =>
    cases stage'
    exact ⟨_,_,next,issue_waits issued⟩
  | waitsOn stage next resumed =>
    cases stage'
    exact ⟨_,_,next,Ledger.waits_resumed resumed⟩

theorem start_fits (now : Nat) (l : Ledger) (plan : JobPlan) : (start now l plan).Fits := by
  intro _ _ _ _ _ here
  rcases start_stage now l plan with stage | ⟨e,stage⟩
  · cases stage.symm.trans here
  · cases stage.symm.trans here

theorem abort_fits (fits : j.Fits) (l : Ledger) : (j.abort l).2.Fits := by
  unfold abort
  split
  · exact fits
  · intro _ _ _ _ _ here
    cases here
  · intro _ _ _ _ _ here
    cases here

theorem due_later {time : Nat} (fits : j.Fits) (still : j.step now l = none)
    (due : j.stage.due = some time) : now < time := by
  cases stage : j.stage with
  | finished | cancelled =>
    rw [stage] at due
    cases due
  | resting n wakes =>
    rw [stage] at due
    cases due
    simpa [step,stage] using still
  | running n tx d p w =>
    rw [stage] at due
    cases w with
    | none => cases due
    | some w =>
      obtain ⟨call,onward,next,waits⟩ := fits n tx d p w stage
      have waiting : l.resume now (tx.getD l.nextTx) call w = none ∧ now < d := by
        simp only [step,stage,next] at still
        split at still
        · cases still
        · cases still
        · rename_i waiting
          split at still
          · cases still
          · rename_i early
            exact ⟨waiting,Nat.lt_of_not_le early⟩
      cases w with
      | row => exact Option.some.inj due ▸ waiting.2
      | «until» ready =>
        have later := Ledger.lt_of_resume waits waiting.1
        cases Option.some.inj due
        exact Nat.lt_min.mpr ⟨later,waiting.2⟩

-- Every step brings a job nearer to its end.
theorem step_weight (stepped : j.step now l = some (l',j')) : j'.weight < j.weight := by
  cases step_sound stepped with
  | wake stage =>
    have start := Phase.rank_le (.start j.plan.movement)
    simp only [weight,stage,Stage.attempt,Stage.weight,waitWeight]
    omega
  | rest stage again =>
    have more := RetryPolicy.lt_of_again? again
    simp only [weight,stage,Stage.weight]
    omega
  | finish stage =>
    simp only [weight,stage,Stage.weight]
    omega
  | @await _ _ _ _ _ _ _ _ answer stage next =>
    have below := Phase.rank_await next answer
    simp only [weight,stage,Stage.weight,waitWeight]
    omega
  | @answered _ _ _ _ _ _ _ answer stage next =>
    have below := Phase.rank_awaitBefore next (some answer)
    simp only [weight,stage,Stage.weight,waitWeight]
    omega
  | @waits _ _ _ _ _ _ _ w stage =>
    have below := waitWeight_some w
    simp only [weight,stage,Stage.weight]
    change _ < _ + 2 + 1
    omega
  | @resumed _ _ _ _ _ _ _ _ answer stage next =>
    have below := Phase.rank_awaitBefore next (some answer)
    simp only [weight,stage,Stage.weight,waitWeight]
    omega
  | waitsOn stage next resumed =>
    obtain ⟨⟨id,rfl⟩,delay,rfl⟩ := Ledger.waits_of_resume resumed
    simp only [weight,stage,Stage.weight,waitWeight]
    omega
  | late stage next =>
    have below := Phase.rank_awaitBefore next none
    simp only [weight,stage,Stage.weight,waitWeight]
    omega

theorem weight_le (j : Job) : j.weight ≤ j.plan.stepBound :=
  Nat.le_of_lt (j.stage.weight_lt j.plan.policy)

end Job

namespace World

theorem stepFirst_eq_some {now : Nat} {l l' : Ledger} {jobs jobs' : List Job}
    (stepped : stepFirst now l jobs = some (l',jobs')) :
    ∃ i j j', jobs[i]? = some j ∧ j.step now l = some (l',j') ∧ jobs' = jobs.set i j' := by
  induction jobs generalizing jobs' with
  | nil => cases stepped
  | cons j rest ih =>
    simp only [stepFirst] at stepped
    split at stepped
    · rename_i found
      cases Option.some.inj stepped
      exact ⟨0,j,_,rfl,found,rfl⟩
    · obtain ⟨⟨l₁,rest'⟩,later,same⟩ := Option.map_eq_some_iff.mp stepped
      cases same
      obtain ⟨i,k,k',found,moved,rfl⟩ := ih later
      exact ⟨i + 1,k,k',found,moved,rfl⟩

theorem stepFirst_eq_none {now : Nat} {l : Ledger} {jobs : List Job}
    (still : stepFirst now l jobs = none) : ∀ j ∈ jobs, j.step now l = none := by
  induction jobs with
  | nil => simp
  | cons j rest ih =>
    simp only [stepFirst] at still
    split at still
    · cases still
    · rename_i first
      intro k member
      rcases List.mem_cons.mp member with rfl | later
      · exact first
      · exact ih (Option.map_eq_none_iff.mp still) k later

def Still (w : World) : Prop := w.step = none

def weight (w : World) : Nat := (w.jobs.map Job.weight).sum

theorem Still.job {w : World} (still : w.Still) : ∀ j ∈ w.jobs, j.step w.clock w.ledger = none :=
  stepFirst_eq_none (Option.map_eq_none_iff.mp still)

theorem step_eq_some {w w' : World} (stepped : w.step = some w') :
    ∃ i j l' j', w.jobs[i]? = some j ∧ j.step w.clock w.ledger = some (l',j') ∧
      w' = { w with ledger := l', jobs := w.jobs.set i j' } := by
  obtain ⟨⟨l',jobs'⟩,first,rfl⟩ := Option.map_eq_some_iff.mp stepped
  obtain ⟨i,j,j',found,moved,rfl⟩ := stepFirst_eq_some first
  exact ⟨i,j,l',j',found,moved,rfl⟩

theorem sum_set_lt {jobs : List Job} {i : Nat} {j j' : Job} (found : jobs[i]? = some j)
    (lighter : j'.weight < j.weight) :
    ((jobs.set i j').map Job.weight).sum < (jobs.map Job.weight).sum := by
  induction jobs generalizing i with
  | nil => cases found
  | cons first rest ih =>
    cases i with
    | zero =>
      cases Option.some.inj found
      simpa using lighter
    | succ i => simpa using ih found

theorem step_lighter {w w' : World} (stepped : w.step = some w') : w'.weight < w.weight := by
  obtain ⟨i,j,l',j',found,moved,rfl⟩ := step_eq_some stepped
  exact sum_set_lt found (Job.step_weight moved)

theorem weight_le (w : World) : w.weight ≤ w.stepBound := by
  unfold weight stepBound
  induction w.jobs with
  | nil => exact Nat.le_refl 0
  | cons j rest ih =>
    simp only [List.map_cons,List.sum_cons,List.foldr_cons]
    exact Nat.add_le_add j.weight_le ih

theorem settleWithin_still {n : Nat} {w : World} (enough : w.weight ≤ n) :
    (settleWithin n w).Still := by
  induction n generalizing w with
  | zero =>
    cases stepped : w.step with
    | none => exact stepped
    | some w' => exact absurd (step_lighter stepped) (by omega)
  | succ n ih =>
    simp only [settleWithin]
    split
    · rename_i w' stepped
      have lighter := step_lighter stepped
      exact ih (by omega)
    · rename_i stepped
      exact stepped

-- A world that has settled stands still, its bound notwithstanding.
theorem settle_still (w : World) : w.settle.Still := settleWithin_still w.weight_le

theorem nextDue_of_due {w : World} {j : Job} {due : Nat} (member : j ∈ w.jobs)
    (own : j.stage.due = some due) : ∃ time ≤ due, w.nextDue = some time := by
  have listed : due ∈ w.jobs.filterMap (·.stage.due) := List.mem_filterMap.mpr ⟨j,member,own⟩
  obtain ⟨time,next⟩ := Option.isSome_iff_exists.mp (List.isSome_min?_of_mem listed)
  exact ⟨time,(List.le_min?_iff next).mp (Nat.le_refl time) due listed,next⟩

theorem lt_nextDue {w : World} (still : w.Still) (fits : ∀ j ∈ w.jobs, j.Fits)
    {time : Nat} (next : w.nextDue = some time) : w.clock < time := by
  have member := List.min?_mem next
  obtain ⟨j,here,due⟩ := List.mem_filterMap.mp member
  exact Job.due_later (fits j here) (still.job j here) due

end World
end DoubleEntry
