import DoubleEntry.Proofs.Deadlock
import DoubleEntry.Proofs.Scenarios

namespace DoubleEntry

namespace Job
variable {l : Ledger} {j : Job} {now time : Nat}

theorem due_of_still (unsettled : j.stage.settled = false) (still : j.step now l = none) :
    ∃ time, j.stage.due = some time := by
  cases stage : j.stage with
  | finished | cancelled =>
    rw [stage] at unsettled
    cases unsettled
  | resting n time => exact ⟨time,rfl⟩
  | running n tx d p w =>
    obtain ⟨_,_,wait,_,rfl⟩ := waits_of_still stage still
    cases wait with
    | row id => exact ⟨d,rfl⟩
    | «until» time => exact ⟨min time d,rfl⟩

theorem step_of_due (fits : j.Fits) (due : j.stage.due = some time) (come : time ≤ now) :
    j.step now l ≠ none :=
  fun still => Nat.not_lt_of_le come (due_later fits still due)

end Job

namespace World
variable {w w' : World} {clients : List Client} {i : Nat}

theorem settleWithin_weight (n : Nat) (w : World) : (settleWithin n w).weight ≤ w.weight := by
  induction n generalizing w with
  | zero => exact Nat.le_refl _
  | succ n ih =>
    simp only [settleWithin]
    split
    · rename_i w' stepped
      exact Nat.le_trans (ih w') (Nat.le_of_lt (step_lighter stepped))
    · exact Nat.le_refl _

theorem settle_weight (w : World) : w.settle.weight ≤ w.weight := settleWithin_weight _ w

theorem settle_lighter (awake : ¬w.Still) : w.settle.weight < w.weight := by
  obtain ⟨w',stepped⟩ := Option.ne_none_iff_exists'.mp awake
  have lighter := step_lighter stepped
  have bound := w.weight_le
  unfold settle
  obtain ⟨n,same⟩ : ∃ n, w.stepBound = n + 1 := Nat.exists_eq_add_one.mpr (by omega)
  rw [same,settleWithin,stepped]
  exact Nat.lt_of_le_of_lt (settleWithin_weight n w') lighter

theorem awake_of_due {time : Nat} (fits : w.Fits) (next : w.nextDue = some time) :
    ¬({ w with clock := time } : World).Still := by
  intro still
  obtain ⟨j,member,due⟩ := List.mem_filterMap.mp (List.min?_mem next)
  exact Job.step_of_due (fits j member) due (Nat.le_refl time) (still.job j member)

theorem due_of_unsettled (still : w.Still) (unsettled : ¬w.settled i = true) :
    ∃ time, w.nextDue = some time := by
  obtain ⟨j,found,going⟩ : ∃ j, w.jobs[i]? = some j ∧ j.stage.settled = false := by
    unfold settled at unsettled
    cases found : w.jobs[i]? with
    | none => simp [found] at unsettled
    | some j => exact ⟨j,rfl,by simpa [found] using unsettled⟩
  have member := List.mem_of_getElem? found
  obtain ⟨due,own⟩ := Job.due_of_still going (still.job j member)
  obtain ⟨time,_,next⟩ := nextDue_of_due member own
  exact ⟨time,next⟩

-- Each jump of the clock brings the jobs nearer to their ends.
theorem runWithin_settled {n : Nat} (fits : w.Fits) (enough : w.settle.weight < n) :
    (runWithin none (·.settled i) n w).settled i = true := by
  induction n generalizing w with
  | zero => cases enough
  | succ n ih =>
    simp only [runWithin]
    split
    · assumption
    · rename_i unsettled
      have settled := settle_goes fits
      obtain ⟨time,next⟩ := due_of_unsettled (settle_still w) unsettled
      have lighter := settle_lighter (awake_of_due settled.fits next)
      simp only [next]
      exact ih (w := { w.settle with clock := time }) settled.fits
        (Nat.lt_of_lt_of_le lighter (Nat.le_of_lt_succ enough))

theorem await_settled (fits : w.Fits) (i : Nat) : (w.await i).settled i = true := by
  refine runWithin_settled fits ?_
  have lighter := w.settle_weight
  have bound := w.weight_le
  omega

def launched (w : World) (clients : List Client) (plan : JobPlan) : Bank :=
  { w.bank clients with jobs := w.jobs ++ [Job.start w.clock w.ledger plan] }

theorem launched_advance (w : World) (clients : List Client) (plan : JobPlan) :
    (w.bank clients).advance (.launch plan) = some (w.launched clients plan) := rfl

theorem stays_of_flows {b b' : Bank} {j : Job} (sound : b.Sound) (flows : Flows b b')
    (found : b.jobs[i]? = some j) : ∃ j', b'.jobs[i]? = some j' := by
  obtain ⟨history,runs,timely,_⟩ := flows
  have keeps : Keeps (fun _ _ => True) (fun _ => True) i :=
    ⟨fun _ _ _ _ _ _ _ _ _ => trivial,fun _ _ _ _ _ _ _ => trivial⟩
  obtain ⟨_,j',found',_⟩ := runs.keeps keeps sound timely (fun _ _ => trivial) found
    (fun _ _ _ _ _ _ => trivial) trivial
  exact ⟨j',found'⟩

theorem perform_run (sound : (w.bank clients).Sound) (fits : w.Fits) (plan : JobPlan) :
    ∃ w' j, w.perform (.run plan) = (w',.ofJob j) ∧
      Flows (w.launched clients plan) (w'.bank clients) ∧
      w'.jobs[w.jobs.length]? = some j ∧ j.stage.settled = true := by
  let begun : World := { w with jobs := w.jobs ++ [Job.start w.clock w.ledger plan] }
  have fits' : begun.Fits := by
    intro j member
    rcases List.mem_append.mp member with old | new
    · exact fits j old
    · cases List.mem_singleton.mp new
      exact Job.start_fits _ _ _
  have first := settle_goes fits'
  have second := (runUntil_goes none (·.settled w.jobs.length) first.fits (by simp)).1
  have flows : Flows (w.launched clients plan) _ := (first.trans second).flows clients
  have sound' := (sound.advances (launched_advance w clients plan)).sound sound
  have here : (w.launched clients plan).jobs[w.jobs.length]? = some _ := List.getElem?_concat_length
  obtain ⟨j,found⟩ := stays_of_flows sound' flows here
  refine ⟨begun.settle.await w.jobs.length,j,?_,flows,found,?_⟩
  · have reported : (begun.settle.await w.jobs.length).report w.jobs.length = .ofJob j := by
      rw [report]
      exact congrArg (Option.elim · _ _) found
    simp only [perform,launch]
    exact congrArg (Prod.mk _) reported
  · have ended := await_settled first.fits w.jobs.length
    have found' : (begun.settle.await w.jobs.length).jobs[w.jobs.length]? = some j := found
    simpa only [settled,found',Option.all_some] using ended

end World
end DoubleEntry
