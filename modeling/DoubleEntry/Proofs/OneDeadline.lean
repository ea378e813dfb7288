import DoubleEntry.Proofs.Seclusion

namespace DoubleEntry

def Bank.timetable (b : Bank) (plan : JobPlan) : Timetable where
  start := b.clock
  hold := lasting b.ledger.lockHold
  commit := lasting b.ledger.commitDelay
  timeout := plan.timeout

namespace Timetable
variable {t : Timetable} {p : Phase} {outcome : Outcome} {r c elapsed : Nat}

def length (t : Timetable) : Nat := min (2 * t.hold + t.commit) t.limit

theorem Arrives.took (arrives : t.Arrives outcome elapsed) : elapsed = t.length := by
  unfold length
  cases arrives <;> omega

theorem le_of_leg (leg : t.leg p = some (r,c)) : r + c ≤ 2 * t.hold + t.commit := by
  cases p <;> cases leg <;> omega

end Timetable

theorem Stage.OnTime.done {t : Timetable} {now : Nat} {stage : Stage} (onTime : stage.OnTime t now) :
    stage.settled = false ∧ now ≤ t.start + t.length ∨
      ∃ outcome elapsed, stage = .finished outcome (t.start + elapsed) ∧
        t.Arrives outcome elapsed := by
  unfold Timetable.length
  cases onTime with
  | finished arrives => exact .inr ⟨_,_,rfl,arrives⟩
  | opening here => exact .inl ⟨rfl,by omega⟩
  | undoing late here => exact .inl ⟨rfl,by omega⟩
  | answered arrives here =>
    have reached := arrives.took
    unfold Timetable.length at reached
    exact .inl ⟨rfl,by omega⟩
  | ready leg here within | waits leg ahead within =>
    have bound := Timetable.le_of_leg leg
    exact .inl ⟨rfl,by omega⟩

section Favoured
variable {later : List Turn} {b b₁ b' : Bank} {plan : JobPlan}

theorem launch_eq_some (launched : b.advance (.launch plan) = some b₁) :
    b₁ = { b with jobs := b.jobs ++ [Job.start b.clock b.ledger plan] } :=
  (Option.some.inj launched).symm

theorem runs_favoured (sound : b.Sound) (once : plan.retry = none)
    (plain : plan.failures = []) (checked : plan.movement.check = .ok ())
    (launched : b.advance (.launch plan) = some b₁) (onward : Runs b₁ later b')
    (timely : Timely later) (undropped : ∀ t ∈ later, t.move ≠ .abort b.jobs.length)
    (favours : ∀ t ∈ later, t.before.Favours (b.timetable plan) b.jobs.length) :
    ∃ j, b'.jobs[b.jobs.length]? = some j ∧ j.started = b.clock ∧
      (j.stage.settled = false ∧ b'.clock ≤ b.clock + (b.timetable plan).length ∨
        ∃ outcome elapsed, j.stage = .finished outcome (b.clock + elapsed) ∧
          (b.timetable plan).Arrives outcome elapsed ∧
          ∀ e, outcome = .error e → Unwritten later b.jobs.length) := by
  have sound := (sound.advances launched).sound sound
  cases launch_eq_some launched
  have found : (b.jobs ++ [Job.start b.clock b.ledger plan])[b.jobs.length]? = some _ :=
    List.getElem?_concat_length
  obtain ⟨j,found',travels⟩ := runs_travels (t := b.timetable plan) sound found rfl onward timely
    once plain checked rfl undropped favours
  refine ⟨j,found',travels.started,travels.onTime.done.imp_right ?_⟩
  rintro ⟨outcome,elapsed,stage,arrives⟩
  refine ⟨outcome,elapsed,stage,arrives,?_⟩
  rintro e rfl
  obtain ⟨j',found'',_,so⟩ := runs_unwritten onward sound favours found
  cases Option.some.inj (found'.symm.trans found'')
  rcases so with ⟨r,succeeded⟩ | unwritten
  · rw [stage] at succeeded
    cases succeeded
  · exact unwritten

end Favoured

-- Both accounts bear the movement, nobody is at their rows, and nobody who is under way has anything
-- to do there.
structure Bank.Secludes (b : Bank) (m : Movement) : Prop where
  unarmed : b.ledger.faults = []
  affords : b.ledger.Affords m
  vacant : ∀ id, m.Touches id → ∀ tx, ¬b.ledger.Seated tx id
  others : ∀ j ∈ b.jobs, j.stage.settled = false →
    ∀ id, m.Touches id → ¬j.plan.movement.Touches id

section Deciding
variable {l : Ledger} {b : Bank} {m : Movement} {id : AccountId}

def Ledger.bears (l : Ledger) (id : AccountId) (delta : Int) : Bool :=
  (l.account? id).any fun a => decide (Bigint.Fits (a.balance + delta))

theorem Ledger.bears_iff {delta : Int} : l.bears id delta = true ↔
    ∃ a, l.account? id = some a ∧ Bigint.Fits (a.balance + delta) := by
  unfold bears
  cases l.account? id <;> simp

theorem Ledger.vacant_iff :
    (l.row? id).all (fun r => r.seats.isEmpty) = true ↔ ∀ tx, ¬l.Seated tx id := by
  unfold Seated
  cases l.row? id <;> simp [List.isEmpty_iff,List.eq_nil_iff_forall_not_mem]

theorem Movement.forall_touches {P : AccountId → Prop} :
    (∀ id, m.Touches id → P id) ↔ P m.source ∧ P m.destination := by
  refine ⟨fun both => ⟨both _ (.inl rfl),both _ (.inr rfl)⟩,?_⟩
  rintro ⟨source,destination⟩ id (rfl | rfl)
  · exact source
  · exact destination

theorem Bank.secludes_iff : b.Secludes m ↔ b.ledger.faults = [] ∧
    (b.ledger.bears m.source (-m.amount) = true ∧ b.ledger.bears m.destination m.amount = true) ∧
    ((b.ledger.row? m.source).all (fun r => r.seats.isEmpty) = true ∧
      (b.ledger.row? m.destination).all (fun r => r.seats.isEmpty) = true) ∧
    ∀ j ∈ b.jobs, j.stage.settled = false →
      ¬j.plan.movement.Touches m.source ∧ ¬j.plan.movement.Touches m.destination := by
  simp only [Ledger.bears_iff,Ledger.vacant_iff]
  constructor
  · rintro ⟨unarmed,⟨source,destination⟩,vacant,others⟩
    exact ⟨unarmed,⟨source,destination⟩,Movement.forall_touches.mp vacant,
      fun j member going => Movement.forall_touches.mp (others j member going)⟩
  · rintro ⟨unarmed,⟨source,destination⟩,vacant,others⟩
    exact ⟨unarmed,⟨source,destination⟩,Movement.forall_touches.mpr vacant,
      fun j member going => Movement.forall_touches.mpr (others j member going)⟩

instance : Decidable (b.Secludes m) := decidable_of_iff _ Bank.secludes_iff.symm

end Deciding

theorem secluded_launched {b b₁ : Bank} {plan : JobPlan} (secludes : b.Secludes plan.movement)
    (launched : b.advance (.launch plan) = some b₁) :
    Secluded b₁ plan.movement b.jobs.length [] b₁ := by
  cases launch_eq_some launched
  refine ⟨secludes.unarmed,rfl,rfl,?_,?_,fun _ _ _ => rfl⟩
  · intro id touched tx seated
    exact absurd seated (secludes.vacant id touched tx)
  · intro k j different found
    have old : b.jobs[k]? = some j := (Bank.getElem?_concat_ne different).symm.trans found
    exact secludes.others j (List.mem_of_getElem? old)

namespace World
variable {w : World} {clients : List Client} {plan : JobPlan}

-- A command that runs a transfer which has its rows to itself is answered as its timetable says. Then
-- nobody is at these rows, and unless it has succeeded they are as they were.
theorem run_secluded (sound : (w.bank clients).Sound) (fits : w.Fits) (once : plan.retry = none)
    (plain : plan.failures = []) (checked : plan.movement.check = .ok ())
    (secludes : (w.bank clients).Secludes plan.movement) :
    ∃ w' outcome calls elapsed, w.perform (.run plan) = (w',.report outcome calls elapsed) ∧
      ((w.bank clients).timetable plan).Arrives outcome elapsed ∧
      (∀ id, plan.movement.Touches id → ∀ tx, ¬w'.ledger.Seated tx id) ∧
      ∀ e, outcome = .error e → ∃ later, Runs (w.launched clients plan) later (w'.bank clients) ∧
        Unwritten later w.jobs.length ∧
          ∀ id, plan.movement.Touches id → w'.ledger.account? id = w.ledger.account? id := by
  obtain ⟨w',j,performed,⟨later,onward,timely,flows⟩,found,settled⟩ :=
    perform_run sound fits plan
  have launched := launched_advance w clients plan
  have sound' := (sound.advances launched).sound sound
  have here : (w.launched clients plan).jobs[w.jobs.length]? =
      some (Job.start w.clock w.ledger plan) := List.getElem?_concat_length
  obtain ⟨_,secluded,favours⟩ := runs_secluded ((w.bank clients).timetable plan) onward flows
    sound' here (secluded_launched secludes launched) secludes.affords rfl rfl
  have undropped : ∀ t ∈ later, t.move ≠ .abort w.jobs.length := by
    intro t member dropped
    have flowing := flows t member
    rw [dropped] at flowing
    cases flowing
  obtain ⟨j',found',started,course⟩ :=
    runs_favoured sound once plain checked launched onward timely undropped favours
  cases Option.some.inj (found.symm.trans found')
  rcases course with ⟨going,_⟩ | ⟨outcome,elapsed,stage,arrives,unwritten⟩
  · rw [settled] at going
    cases going
  · have elapses : w.clock + elapsed - j.started = elapsed := by
      rw [started]
      exact Nat.add_sub_cancel_left w.clock elapsed
    have answer : Answer.ofJob j = .report outcome j.calls elapsed := by
      have ended : j.stage = .finished outcome (w.clock + elapsed) := stage
      rw [Answer.ofJob,ended]
      exact congrArg (Answer.report outcome j.calls) elapses
    refine ⟨w',outcome,j.calls,elapsed,by rw [performed,answer],arrives,?_,?_⟩
    · intro id touched tx seated
      have own : (w'.bank clients).tx? w.jobs.length = some tx :=
        secluded.apart id touched tx seated
      rw [Bank.tx?,bank,found,Option.bind_some,Job.tx?,stage] at own
      cases own
    · rintro e failed
      exact ⟨later,onward,unwritten e failed,secluded.kept (unwritten e failed)⟩

end World

def Bank.world (b : Bank) : World := { clock := b.clock, ledger := b.ledger, jobs := b.jobs }

theorem run_alone {history : List Turn} {b : Bank} {plan : JobPlan} (runs : Runs {} history b)
    (once : plan.retry = none) (plain : plan.failures = []) (checked : plan.movement.check = .ok ())
    (secludes : b.Secludes plan.movement) :
    ∃ w' outcome calls elapsed, b.world.perform (.run plan) =
      (w',.report outcome calls elapsed) ∧ (b.timetable plan).Arrives outcome elapsed := by
  have sound : (b.world.bank b.clients).Sound := runs_sound runs
  have fits : b.world.Fits := runs_fits runs
  obtain ⟨w',outcome,calls,elapsed,performed,arrives,_⟩ :=
    World.run_secluded sound fits once plain checked secludes
  exact ⟨w',outcome,calls,elapsed,performed,arrives⟩

theorem deadline_bounds_transfer (runs : Runs {} history b) (timely : Timely history) :
    -- Whatever happens, nothing that a call does lies beyond its limit, and neither does its
    -- transaction nor a seat that it has taken.
    (∀ (i a : Nat) j, b.jobs[i]? = some j → j.stage.call? = some a →
      ∀ later b', Runs b later b' → Timely later →
        (b'.call? i = some a → b'.clock ≤ b.clock + j.plan.limit) ∧
        (∀ t ∈ callTurns later i a, t.after.clock ≤ b.clock + j.plan.limit) ∧
        ∀ tx, Used (history ++ later) i a tx → b'.ledger.Live tx ∨ (∃ id, b'.ledger.Seated tx id) →
          b'.clock ≤ b.clock + j.plan.limit) ∧
    -- A transfer that nothing comes between keeps its timetable; late, it leaves nothing behind.
    (∀ plan b₁ later b', plan.retry = none → plan.failures = [] → plan.movement.check = .ok () →
      b.advance (.launch plan) = some b₁ → Runs b₁ later b' → Timely later →
      (∀ t ∈ later, t.move ≠ .abort b.jobs.length) →
      (∀ t ∈ later, t.before.Favours (b.timetable plan) b.jobs.length) →
      ∃ j, b'.jobs[b.jobs.length]? = some j ∧ j.started = b.clock ∧
        (j.stage.settled = false ∧ b'.clock ≤ b.clock + (b.timetable plan).length ∨
          ∃ outcome elapsed, j.stage = .finished outcome (b.clock + elapsed) ∧
            (b.timetable plan).Arrives outcome elapsed ∧
            (∀ e, outcome = .error e → Unwritten later b.jobs.length) ∧
            ∀ a tx, Used later b.jobs.length a tx → ∀ id, ¬b'.ledger.Seated tx id)) ∧
    -- Left to themselves all jobs end, and a command that runs a transfer once is answered in time;
    -- if the transfer has its rows to itself, as its timetable says.
    ∀ (w : World) clients, w.bank clients = b →
      (∀ i, (w.await i).settled i = true) ∧
      ∀ plan, plan.retry = none → ∃ w' outcome calls elapsed,
        w.perform (.run plan) = (w',.report outcome calls elapsed) ∧ elapsed ≤ plan.limit ∧
        (plan.failures = [] → plan.movement.check = .ok () → b.Secludes plan.movement →
          (b.timetable plan).Arrives outcome elapsed ∧
          (∀ id, plan.movement.Touches id → ∀ tx, ¬w'.ledger.Seated tx id) ∧
          ∀ e, outcome = .error e → ∃ later,
            Runs (w.launched clients plan) later (w'.bank clients) ∧ Unwritten later w.jobs.length ∧
            ∀ id, plan.movement.Touches id → w'.ledger.account? id = w.ledger.account? id) := by
  have sound := runs_sound runs
  refine ⟨?_,?_,?_⟩
  · intro i a j found here later b' onward timely'
    refine ⟨clock_of_underway runs timely found here onward timely',
      fun t => clock_of_turn runs timely found here onward timely',?_⟩
    intro tx used open'
    have live : b'.ledger.Live tx := by
      rcases open' with live | ⟨id,seated⟩
      · exact live
      · exact (runs_sound (runs.append onward)).ledger.seated id tx seated
    exact clock_of_open runs timely found here onward timely' used live
  · intro plan b₁ later b' once plain checked launched onward timely' undropped favours
    obtain ⟨j,found,started,course⟩ :=
      runs_favoured sound once plain checked launched onward timely' undropped favours
    refine ⟨j,found,started,course.imp_right ?_⟩
    rintro ⟨outcome,elapsed,stage,arrives,unwritten⟩
    refine ⟨outcome,elapsed,stage,arrives,unwritten,?_⟩
    rintro a tx ⟨t,member,owns⟩ id
    have whole := (runs.step launched).append onward
    have ended : b'.call? b.jobs.length ≠ some a := by
      rw [Bank.call?,found,Option.bind_some,stage]
      simp [Stage.call?]
    refine not_seated_of_ended whole ended ⟨t,?_,owns⟩ id
    rw [callTurns_append]
    exact List.mem_append_right _ member
  · rintro w clients rfl
    have fits : w.Fits := runs_fits runs
    refine ⟨World.await_settled fits,fun plan once => ?_⟩
    obtain ⟨w',outcome,calls,elapsed,performed,within⟩ := World.run_reported sound fits once
    refine ⟨w',outcome,calls,elapsed,performed,within,fun plain checked secludes => ?_⟩
    obtain ⟨_,_,_,_,performed',arrives⟩ := World.run_secluded sound fits once plain checked secludes
    cases performed.symm.trans performed'
    exact arrives

-- While carol's transfer rests at her row, alice gives bob something and is in a hurry: the two rests
-- at the rows fit into her limit, the one before the commit does not.
def hurried :
    JobPlan := { request := { source := 1, destination := 2, amount := 5 }, timeout := .ofMillis 50 }

def resting : List Move :=
  [.createAccount "alice" .usd 100,.createAccount "bob" .usd 50,.createAccount "carol" .usd 70,
    .createAccount "dave" .usd 0,.setLockHold (some (.ofMillis 20)),
    .setCommitDelay (some (.ofMillis 30)),
    .launch { request := { source := 3, destination := 4, amount := 7 } },
    .step 0,.step 0,.step 0,.step 0,.step 0]

theorem resting_ends : (Bank.replay {} resting).isSome = true := by decide +kernel

def restingRun : List Turn × Bank := (Bank.replay {} resting).get resting_ends

theorem deadline_bounds_transfer_hurried :
    Runs {} restingRun.1 restingRun.2 ∧ Timely restingRun.1 ∧
      (∀ later b', Runs restingRun.2 later b' → Timely later → b'.call? 0 = some 0 →
        b'.clock ≤ 5000) ∧
      ∃ w' calls, restingRun.2.world.perform (.run hurried) =
          (w',.report (.error (.commitTimeout (.ofMillis 50))) calls 50) ∧
        (∀ tx, ¬w'.ledger.Seated tx 1) ∧
          w'.ledger.account? 1 = restingRun.2.world.ledger.account? 1 := by
  have runs : Runs {} restingRun.1 restingRun.2 := runs_of_ends resting_ends
  have timely : Timely restingRun.1 := by decide +kernel
  obtain ⟨bounded,_,answered⟩ := deadline_bounds_transfer runs timely
  refine ⟨runs,timely,?_,?_⟩
  · intro later b' onward timely' here
    have under : (restingRun.2.jobs[0]?).map (fun j => (j.stage.call?,j.plan.limit)) =
        some (some 0,5000) := by decide +kernel
    obtain ⟨j,found,same⟩ := Option.map_eq_some_iff.mp under
    obtain ⟨call,limit⟩ := Prod.mk.inj same
    have soon := (bounded 0 0 j found call later b' onward timely').1 here
    have start : restingRun.2.clock = 0 := by decide +kernel
    omega
  · have secludes : restingRun.2.Secludes hurried.movement := by decide +kernel
    obtain ⟨w',outcome,calls,elapsed,performed,_,secluded⟩ :=
      (answered restingRun.2.world restingRun.2.clients rfl).2 hurried rfl
    obtain ⟨arrives,free,kept⟩ := secluded rfl rfl secludes
    have timetable : restingRun.2.timetable hurried = ⟨0,20,30,.ofMillis 50⟩ := by decide +kernel
    have limit : (Timetable.mk 0 20 30 (.ofMillis 50)).limit = 50 := Duration.ticks_ofMillis 50
    rw [timetable] at arrives
    cases arrives with
    | committed within => exact absurd within (by decide +kernel)
    | holding late => exact absurd late (by decide +kernel)
    | committing =>
      obtain ⟨_,_,_,same⟩ := kept _ rfl
      rw [limit] at performed
      exact ⟨w',calls,performed,free 1 (.inl rfl),same 1 (.inl rfl)⟩

-- A rest at a row is asked to last 10 ^ 12 milliseconds, which is longer than any rest lasts.
def lingering : List Move :=
  [.createAccount "alice" .usd 100,.createAccount "bob" .usd 50,
    .setLockHold (some (.ofMillis 1000000000000))]

theorem lingering_ends : (Bank.replay {} lingering).isSome = true := by decide +kernel

def lingeringRun : List Turn × Bank := (Bank.replay {} lingering).get lingering_ends

def unhurried : JobPlan where
  request := { source := 1, destination := 2, amount := 5 }
  timeout := .ofMillis 10000000000000

-- A limit of a millisecond and a half lies between one rest and two.
def pausing : List Move :=
  [.createAccount "alice" .usd 100,.createAccount "bob" .usd 50,.setLockHold (some (.ofMillis 1))]

theorem pausing_ends : (Bank.replay {} pausing).isSome = true := by decide +kernel

def pausingRun : List Turn × Bank := (Bank.replay {} pausing).get pausing_ends

def brief : JobPlan where
  request := { source := 1, destination := 2, amount := 5 }
  timeout := ⟨1500000⟩

-- Both transfers succeed, one before its rests would have been over and one after its limit.
theorem exact_times_missed :
    (lingeringRun.2.Secludes unhurried.movement ∧
      lingeringRun.2.ledger.lockHold = some (.ofMillis 1000000000000) ∧
      lingeringRun.2.ledger.commitDelay = none ∧
      unhurried.timeout = .ofMillis 10000000000000 ∧
      ∃ w' r calls elapsed,
        lingeringRun.2.world.perform (.run unhurried) = (w',.report (.ok r) calls elapsed) ∧
          elapsed = 2 * longestRest ∧ elapsed < 2 * 1000000000000) ∧
    pausingRun.2.Secludes brief.movement ∧
      pausingRun.2.ledger.lockHold = some (.ofMillis 1) ∧
      pausingRun.2.ledger.commitDelay = none ∧ brief.timeout.nanos < 2 * 1000000 ∧
      ∃ w' r calls, pausingRun.2.world.perform (.run brief) = (w',.report (.ok r) calls 2) := by
  constructor
  · have runs : Runs {} lingeringRun.1 lingeringRun.2 := runs_of_ends lingering_ends
    have secludes : lingeringRun.2.Secludes unhurried.movement := by decide +kernel
    refine ⟨secludes,by decide +kernel,by decide +kernel,rfl,?_⟩
    obtain ⟨w',outcome,calls,elapsed,performed,arrives⟩ :=
      run_alone runs rfl rfl rfl secludes
    have timetable : lingeringRun.2.timetable unhurried =
        ⟨0,longestRest,0,.ofMillis 10000000000000⟩ := by decide +kernel
    rw [timetable] at arrives
    cases arrives with
    | committed => exact ⟨w',_,calls,_,performed,rfl,by decide⟩
    | committing held late => exact absurd late (by decide +kernel)
    | holding late => exact absurd late (by decide +kernel)
  · have runs : Runs {} pausingRun.1 pausingRun.2 := runs_of_ends pausing_ends
    have secludes : pausingRun.2.Secludes brief.movement := by decide +kernel
    refine ⟨secludes,by decide +kernel,by decide +kernel,by decide,?_⟩
    obtain ⟨w',outcome,calls,elapsed,performed,arrives⟩ :=
      run_alone runs rfl rfl rfl secludes
    have timetable : pausingRun.2.timetable brief = ⟨0,1,0,⟨1500000⟩⟩ := by decide +kernel
    rw [timetable] at arrives
    cases arrives with
    | committed => exact ⟨w',_,calls,performed⟩
    | committing held late => exact absurd late (by decide +kernel)
    | holding late => exact absurd late (by decide +kernel)

end DoubleEntry
