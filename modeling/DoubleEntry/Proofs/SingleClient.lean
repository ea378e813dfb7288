import Mathlib.Logic.Relation
import DoubleEntry.Proofs.Stillness
import DoubleEntry.Scenario.Command

namespace DoubleEntry

theorem Job.step_of_settled {j : Job} (settled : j.stage.settled = true) (now : Nat) (l : Ledger) :
    j.step now l = none := by
  cases stage : j.stage with
  | running | resting =>
    rw [stage] at settled
    cases settled
  | finished | cancelled => simp only [step,stage]

def Job.Reaches (now : Nat) : Ledger × Job → Ledger × Job → Prop :=
  Relation.ReflTransGen fun x y => x.2.step now x.1 = some y

namespace World
variable {w : World} {others : List Job} {j j' : Job} {l l' : Ledger}

theorem stepFirst_alone (settled : ∀ k ∈ others, k.stage.settled = true) (now : Nat) (l : Ledger)
    (j : Job) :
    stepFirst now l (others ++ [j]) = (j.step now l).map fun (l,j) => (l,others ++ [j]) := by
  induction others with
  | nil =>
    simp only [List.nil_append,stepFirst]
    cases j.step now l <;> rfl
  | cons k rest ih =>
    have first := Job.step_of_settled (settled k (by simp)) now l
    have later := ih fun k member => settled k (by simp [member])
    simp only [List.cons_append,stepFirst,first,later,Option.map_map]
    rfl

theorem step_alone (settled : ∀ k ∈ others, k.stage.settled = true)
    (jobs : w.jobs = others ++ [j]) :
    w.step = (j.step w.clock w.ledger).map fun (l,j) =>
      { w with ledger := l, jobs := others ++ [j] } := by
  simp only [step,jobs,stepFirst_alone settled,Option.map_map]
  rfl

-- A world has only one way to go, so it settles where the job has ended.
theorem settleWithin_alone {n now : Nat} {x : Ledger × Job}
    (settled : ∀ k ∈ others, k.stage.settled = true) (ended : j'.stage.settled = true)
    (reaches : Job.Reaches now x (l',j')) (clock : w.clock = now) (ledger : w.ledger = x.1)
    (jobs : w.jobs = others ++ [x.2]) (enough : w.weight ≤ n) :
    settleWithin n w = { w with ledger := l', jobs := others ++ [j'] } := by
  induction reaches using Relation.ReflTransGen.head_induction_on generalizing w n with
  | refl =>
    have still : w.step = none := by
      rw [step_alone settled jobs,Job.step_of_settled ended]
      rfl
    have same : w = { w with ledger := l', jobs := others ++ [j'] } := by
      cases w
      cases ledger
      cases jobs
      rfl
    cases n with
    | zero => exact same
    | succ n => rw [settleWithin,still]; exact same
  | @head x y stepped _ ih =>
    have next : w.step = some { w with ledger := y.1, jobs := others ++ [y.2] } := by
      rw [step_alone settled jobs,clock,ledger,stepped]
      rfl
    have lighter := step_lighter next
    cases n with
    | zero => omega
    | succ n =>
      rw [settleWithin,next]
      exact ih clock rfl rfl (by omega)

theorem settle_alone (settled : ∀ k ∈ others, k.stage.settled = true)
    (ended : j'.stage.settled = true) (jobs : w.jobs = others ++ [j])
    (reaches : Job.Reaches w.clock (w.ledger,j) (l',j')) :
    w.settle = { w with ledger := l', jobs := others ++ [j'] } :=
  settleWithin_alone settled ended reaches rfl rfl jobs w.weight_le

theorem obey_run {plan : JobPlan} {outcome : Outcome} {time : Nat}
    (settled : ∀ k ∈ w.jobs, k.stage.settled = true)
    (reaches : Job.Reaches w.clock (w.ledger,Job.start w.clock w.ledger plan) (l',j'))
    (finished : j'.stage = .finished outcome time) :
    w.obey (.run plan) = ({ w with ledger := l', jobs := w.jobs ++ [j'] },
      .report outcome j'.calls (time - j'.started)) := by
  have ended : j'.stage.settled = true := by rw [finished]; rfl
  let done : World := { w with ledger := l', jobs := w.jobs ++ [j'] }
  let begun : World := { w with jobs := w.jobs ++ [Job.start w.clock w.ledger plan] }
  have settles : begun.settle = done := settle_alone (w := begun) settled ended rfl reaches
  have launched : w.launch plan = (done,w.jobs.length) := congrArg (·,w.jobs.length) settles
  have rests : done.settle = done := settle_alone settled ended rfl .refl
  have here : done.jobs[w.jobs.length]? = some j' := by simp [done]
  have isOver : done.settled w.jobs.length = true := by
    rw [World.settled,here]
    exact ended
  have awaited : done.await w.jobs.length = done := by
    simp only [await,runUntil,runWithin,rests,isOver,if_true]
  have reported : done.report w.jobs.length = .report outcome j'.calls (time - j'.started) := by
    rw [report,here]
    simp only [Option.elim,Answer.ofJob,finished]
  simp only [obey,perform,launched,awaited,rests,reported]
  rfl

end World
end DoubleEntry
