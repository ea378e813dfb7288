import DoubleEntry.Proofs.AllOrNothing
import DoubleEntry.Proofs.Awaiting

namespace DoubleEntry

namespace Stage
variable {limit time now n d : Nat} {tx : Option TxId} {p : Phase} {w : Option Wait} {stage : Stage}

-- The attempt has ended by `time`, or will have whatever becomes of its calls. Its transaction is
-- given `limit`.
def EndsBy (limit time now : Nat) : Stage → Prop
  | running _ _ _ .opening _ => now + limit ≤ time
  | running _ _ _ (.rollingBack _) _ | running _ _ _ (.ended _) _ => now ≤ time
  | running _ _ deadline _ _ => now ≤ deadline ∧ deadline ≤ time
  | finished _ last => last ≤ time
  | resting _ _ | cancelled => False

theorem EndsBy.le (ends : stage.EndsBy limit time now) (here : stage.call? = some a) :
    now ≤ time := by
  cases stage with
  | resting | finished | cancelled => cases here
  | running n tx d p w =>
    cases p with
    | opening => exact Nat.le_trans (Nat.le_add_right now limit) ends
    | rollingBack | ended => exact ends
    | _ => exact Nat.le_trans ends.1 ends.2

theorem EndsBy.later {time' : Nat} (ends : stage.EndsBy limit time now) (later : time ≤ time') :
    stage.EndsBy limit time' now := by
  cases stage with
  | resting | cancelled => cases ends
  | finished => exact Nat.le_trans ends later
  | running n tx d p w =>
    cases p with
    | opening | rollingBack | ended => exact Nat.le_trans ends later
    | _ => exact ⟨ends.1,Nat.le_trans ends.2 later⟩

-- Neither the transaction nor what it waits for matters.
theorem EndsBy.same (ends : (running n tx d p w).EndsBy limit time now) (tx' : Option TxId)
    (w' : Option Wait) : (running n tx' d p w').EndsBy limit time now := by
  cases p <;> exact ends

theorem endsBy_attempt (plan : JobPlan) (n now : Nat) :
    (attempt plan n).EndsBy limit (now + limit) now := by
  unfold attempt Phase.start
  split
  · exact Nat.le_refl _
  · exact Nat.le_add_right now limit

section Calls
variable {m : Movement} {duration : Duration} {call : Call}

theorem endsBy_pending {onward : Option (Except StoreError call.Row) → Phase}
    (next : p.next m duration = .awaitBefore call onward) :
    (running n tx d p w).EndsBy limit time now ↔ now ≤ d ∧ d ≤ time := by
  cases p <;> simp only [Phase.next,reduceCtorEq] at next <;> exact Iff.rfl

-- Every answer, and no answer, goes on to a call before the same deadline or to what takes no time.
theorem endsBy_onward {onward : Option (Except StoreError call.Row) → Phase}
    (next : p.next m duration = .awaitBefore call onward) (before : now ≤ d) (within : d ≤ time)
    (answer) : (running n tx d (onward answer) w).EndsBy limit time now := by
  have soon := Nat.le_trans before within
  cases p <;> simp only [Phase.next,reduceCtorEq] at next
  case committing =>
    cases next
    rcases answer with _ | _ | _ <;> exact soon
  all_goals
    cases next
    rcases answer with _ | _ | _
    · exact soon
    · exact soon
    · exact ⟨before,within⟩

end Calls

end Stage

namespace Job
variable {l l' : Ledger} {j j' : Job} {now time : Nat}

theorem step_keeps (stepped : j.step now l = some (l',j')) :
    j'.plan = j.plan ∧ j'.started = j.started := by
  cases step_sound stepped <;> exact ⟨rfl,rfl⟩

theorem step_endsBy (ends : j.stage.EndsBy j.plan.limit time now)
    (stepped : j.step now l = some (l',j')) :
    j'.stage.EndsBy j.plan.limit time now ∨ ∃ n wakes, j'.stage = .resting n wakes := by
  cases step_sound stepped with
  | wake stage =>
    rw [stage] at ends
    cases ends
  | rest => exact .inr ⟨_,_,rfl⟩
  | finish stage =>
    rw [stage] at ends
    exact .inl ends
  | @await _ _ _ p _ _ _ _ answer stage next =>
    rw [stage] at ends
    left
    cases p <;> simp only [Phase.next,reduceCtorEq] at next
    case opening =>
      cases next
      cases answer with
      | ok _ => exact ⟨Nat.le_add_right now j.plan.limit,ends⟩
      | error _ => exact Nat.le_trans (Nat.le_add_right now j.plan.limit) ends
    case rollingBack =>
      cases next
      exact ends
  | answered stage next | resumed stage next | late stage next =>
    rw [stage,Stage.endsBy_pending next] at ends
    exact .inl (Stage.endsBy_onward next ends.1 ends.2 _)
  | waits stage next | waitsOn stage next =>
    rw [stage] at ends
    exact .inl (ends.same _ _)

theorem sleeps_endsBy (asleep : j.Sleeps now l later) (ends : j.stage.EndsBy j.plan.limit time now) :
    j.stage.EndsBy j.plan.limit time later := by
  obtain ⟨still,due⟩ := asleep
  cases stage : j.stage with
  | resting | cancelled =>
    rw [stage] at ends
    cases ends
  | finished outcome last =>
    rw [stage] at ends
    exact ends
  | running n tx d p w =>
    obtain ⟨call,onward,wait,next,rfl⟩ := waits_of_still stage (Option.isNone_iff_eq_none.mp still)
    rw [stage,Stage.endsBy_pending next] at ends
    rw [Stage.endsBy_pending next]
    refine ⟨?_,ends.2⟩
    rw [stage] at due
    cases wait with
    | row id => exact due d rfl
    | «until» ready => exact Nat.le_trans (due (min ready d) rfl) (Nat.min_le_right ready d)

def Paced (now : Nat) (j : Job) : Prop :=
  ∀ a, j.stage.call? = some a → j.stage.EndsBy j.plan.limit (now + j.plan.limit) now

theorem start_paced (now : Nat) (l : Ledger) (plan : JobPlan) : (start now l plan).Paced now := by
  intro a here
  rcases start_stage now l plan with stage | ⟨e,stage⟩
  · rw [stage]
    exact Stage.endsBy_attempt plan 0 now
  · rw [stage] at here
    cases here

theorem step_paced (sound : l.Sound) (consistent : j.Consistent l) (paced : j.Paced now)
    (stepped : j.step now l = some (l',j')) : j'.Paced now := by
  intro a here
  have plan := (step_keeps stepped).1
  cases own : j.stage.call? with
  | some n =>
    rw [plan]
    rcases step_endsBy (paced n own) stepped with ends | ⟨_,_,stage⟩
    · exact ends
    · rw [stage] at here
      cases here
  | none =>
    -- Only by waking does a job come to a call that was not under way.
    cases (step_moves sound consistent stepped).does with
    | writes stage | unacknowledged stage =>
      rw [stage] at own
      cases own
    | quietly _ follows =>
      generalize before : j.stage = stage at follows own
      generalize after : j'.stage = stage' at follows here
      cases follows with
      | goesOn unended =>
        rw [Stage.call?_running unended] at own
        cases own
      | rests | finishes => cases here
      | wakes => exact Stage.endsBy_attempt _ _ now

end Job

section Running
variable {history later : List Turn} {b b' : Bank} {i a : Nat} {j : Job}

theorem keeps_paced (i : Nat) : Keeps (fun now j => j.Paced now) (fun _ => True) i where
  steps := fun _ _ _ _ _ sound found paced stepped =>
    Job.step_paced sound.ledger (sound.job found) paced stepped
  sleeps := fun _ _ _ _ asleep passed paced a here =>
    (Job.sleeps_endsBy asleep (paced a here)).later (Nat.add_le_add_right passed _)

theorem runs_paced (runs : Runs {} history b) (timely : Timely history) :
    ∀ (i : Nat) j, b.jobs[i]? = some j → j.Paced b.clock := by
  refine (runs.kept (P := fun history b => Timely history →
    ∀ (i : Nat) j, b.jobs[i]? = some j → j.Paced b.clock) (by simp) ?_).2 timely
  intro history before move after _ sound advanced ih timely i j' found'
  have paced := ih timely.earlier i
  have now := timely _ (List.mem_append_right _ (List.mem_singleton_self _))
  cases found : before.jobs[i]? with
  | some j =>
    obtain ⟨j'',found'',kept⟩ := (keeps_paced i).advance sound trivial now found
      (fun _ _ here => by cases here) advanced (paced j found)
    cases Option.some.inj (found'.symm.trans found'')
    exact kept
  | none =>
    cases (sound.advances advanced).concerns i with
    | passes _ same => cases found.symm.trans (same.symm.trans found')
    | steps _ there | aborts _ there => cases found.symm.trans there
    | launches _ _ found'' =>
      have prompt : ∀ ms, move ≠ .pass ms := by
        rintro ms rfl
        cases Option.some.inj advanced
        cases found.symm.trans found'
      cases Option.some.inj (found'.symm.trans found'')
      rw [Bank.clock_advance advanced prompt]
      exact Job.start_paced _ _ _

def Job.Within (plan : JobPlan) (a time now : Nat) (j : Job) : Prop :=
  j.plan = plan ∧
    (j.stage.Past a ∨ j.stage.call? = some a ∧ j.stage.EndsBy plan.limit time now)

theorem keeps_within (plan : JobPlan) (a time i : Nat) :
    Keeps (fun now j => j.Within plan a time now) (fun _ => True) i where
  steps := by
    rintro b j l' j' - sound found ⟨rfl,within⟩ stepped
    have moves := Job.step_moves sound.ledger (sound.job found) stepped
    refine ⟨moves.plan,?_⟩
    rcases within with past | ⟨here,ends⟩
    · exact .inl (moves.past past)
    · rcases moves.onward here with still | past
      · rcases Job.step_endsBy ends stepped with ends' | ⟨_,_,stage⟩
        · exact .inr ⟨still,ends'⟩
        · rw [stage] at still
          cases still
      · exact .inl past
  sleeps := by
    rintro now l later j asleep - ⟨rfl,within⟩
    exact ⟨rfl,within.imp_right fun ⟨here,ends⟩ => ⟨here,Job.sleeps_endsBy asleep ends⟩⟩

section Underway
variable (runs : Runs {} history b) (timely : Timely history) (found : b.jobs[i]? = some j)
  (here : j.stage.call? = some a) (onward : Runs b later b') (timely' : Timely later)
include runs timely found here onward timely'

theorem runs_within : ∃ j', b'.jobs[i]? = some j' ∧
    j'.Within j.plan a (b.clock + j.plan.limit) b'.clock := by
  have start : j.Within j.plan a (b.clock + j.plan.limit) b.clock :=
    ⟨rfl,.inr ⟨here,runs_paced runs timely i j found a here⟩⟩
  have aborted : ∀ t ∈ later, t.move = .abort i → ∀ now (k : Job),
      k.Within j.plan a (b.clock + j.plan.limit) now →
      ({ k with stage := .cancelled } : Job).Within j.plan a (b.clock + j.plan.limit) now := by
    rintro _ _ _ _ _ ⟨plan,_⟩
    exact ⟨plan,.inl trivial⟩
  exact (onward.keeps (keeps_within _ _ _ i) (runs_sound runs) timely' (fun _ _ => trivial) found
    aborted start).2

theorem clock_of_underway (still : b'.call? i = some a) : b'.clock ≤ b.clock + j.plan.limit := by
  obtain ⟨j',found',_,within⟩ := runs_within runs timely found here onward timely'
  obtain ⟨k,same,inside⟩ := Bank.call?_eq_some.mp still
  cases Option.some.inj (found'.symm.trans same)
  rcases within with past | ⟨_,ends⟩
  · exact absurd past (Stage.not_past_of_call? inside)
  · exact ends.le inside

theorem clock_of_turn {t : Turn} (member : t ∈ callTurns later i a) :
    t.after.clock ≤ b.clock + j.plan.limit := by
  obtain ⟨listed,mine⟩ := List.mem_filter.mp member
  obtain ⟨own,inside⟩ := Turn.call?_eq_some.mp (of_decide_eq_true mine)
  obtain ⟨earlier,rest,split⟩ := List.append_of_mem listed
  obtain ⟨before,advanced⟩ := onward.turn split
  rw [Bank.clock_of_job advanced own]
  exact clock_of_underway runs timely found here before (split ▸ timely').earlier inside

-- A transaction is open no longer than the call that has opened it.
theorem clock_of_open {tx : TxId} (used : Used (history ++ later) i a tx)
    (live : b'.ledger.Live tx) : b'.clock ≤ b.clock + j.plan.limit := by
  rcases runs_used (runs.append onward) i a tx used with holding | spent
  · exact clock_of_underway runs timely found here onward timely' holding.1
  · exact absurd live spent.1

end Underway

end Running

theorem Job.start_once {plan : JobPlan} (once : plan.retry = none) (now : Nat) (l : Ledger) :
    (Job.start now l plan).stage = .attempt plan 0 := by
  simp only [Job.start,once]

theorem Job.not_resting_of_once {j j' : Job} (once : j.plan.retry = none)
    (stepped : j.step now l = some (l',j')) : ∀ n wakes, j'.stage ≠ .resting n wakes := by
  intro n wakes resting
  cases step_sound stepped with
  | rest stage again =>
    have more := RetryPolicy.lt_of_again? again
    simp [JobPlan.policy,once] at more
  | wake =>
    unfold Stage.attempt at resting
    cases resting
  | finish | await | answered | waits | resumed | waitsOn | late => cases resting

def Job.Punctual (plan : JobPlan) (start now : Nat) (j : Job) : Prop :=
  j.plan = plan ∧ j.started = start ∧ j.stage.EndsBy plan.limit (start + plan.limit) now

theorem keeps_punctual {plan : JobPlan} (once : plan.retry = none) (start i : Nat) :
    Keeps (fun now j => j.Punctual plan start now) (fun _ => True) i where
  steps := by
    rintro b j l' j' - - - ⟨rfl,rfl,ends⟩ stepped
    obtain ⟨plan,started⟩ := Job.step_keeps stepped
    refine ⟨plan,started,?_⟩
    rcases Job.step_endsBy ends stepped with ends' | ⟨n,wakes,stage⟩
    · exact ends'
    · exact absurd stage (Job.not_resting_of_once once stepped n wakes)
  sleeps := by
    rintro now l later j asleep - ⟨rfl,rfl,ends⟩
    exact ⟨rfl,rfl,Job.sleeps_endsBy asleep ends⟩

theorem World.run_reported {w : World} {clients : List Client} (sound : (w.bank clients).Sound)
    (fits : w.Fits) {plan : JobPlan} (once : plan.retry = none) :
    ∃ w' outcome calls elapsed,
      w.perform (.run plan) = (w',.report outcome calls elapsed) ∧ elapsed ≤ plan.limit := by
  obtain ⟨w',j,performed,flows,found,settled⟩ := perform_run sound fits plan
  obtain ⟨later,runs,timely,moves⟩ := flows
  have sound' := (sound.advances (launched_advance w clients plan)).sound sound
  have start : (Job.start w.clock w.ledger plan).Punctual plan w.clock w.clock := by
    refine ⟨rfl,rfl,?_⟩
    rw [Job.start_once once]
    exact Stage.endsBy_attempt plan 0 w.clock
  have aborts : ∀ t ∈ later, t.move = .abort w.jobs.length → ∀ now (k : Job),
      k.Punctual plan w.clock now →
      ({ k with stage := .cancelled } : Job).Punctual plan w.clock now := by
    intro t member dropped
    have flowing := moves t member
    rw [dropped] at flowing
    cases flowing
  obtain ⟨_,j',found',_,started,ends⟩ := runs.keeps (keeps_punctual once w.clock w.jobs.length) sound'
    timely (fun _ _ => trivial) List.getElem?_concat_length aborts start
  cases Option.some.inj (found.symm.trans found')
  cases stage : j.stage with
  | running | resting =>
    rw [stage] at settled
    cases settled
  | cancelled =>
    rw [stage] at ends
    cases ends
  | finished outcome last =>
    rw [stage] at ends
    have within : last ≤ w.clock + plan.limit := ends
    refine ⟨w',outcome,j.calls,last - j.started,?_,by omega⟩
    rw [performed,Answer.ofJob,stage]

end DoubleEntry
