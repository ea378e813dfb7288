import DoubleEntry.Proofs.Deadlines
import DoubleEntry.Proofs.Grants
import DoubleEntry.Proofs.Serial

namespace DoubleEntry

-- How long a rest lasts that has been set. None has no length, and none is longer than the longest.
def lasting (delay : Option Duration) : Nat := min (delay.elim 0 Duration.ticks) longestRest

namespace Ledger
variable {l l' : Ledger} {tx : TxId} {call : Call} {now : Nat}

def delays (l : Ledger) : Call → Nat
  | .addToBalance _ _ => lasting l.lockHold
  | .commit => lasting l.commitDelay
  | _ => 0

def Vacant (l : Ledger) (call : Call) : Prop :=
  ∀ id delta, call = .addToBalance id delta → ∀ tx, ¬l.Seated tx id

theorem requestRow_vacant {id : AccountId} (vacant : ∀ other, ¬l.Seated other id) (tx : TxId) :
    (∃ l' e, l.requestRow tx id = (l',.error e)) ∨
      ∃ l', l.requestRow tx id = (l',.ok .taken) ∧ l'.lockHold = l.lockHold := by
  unfold requestRow
  rcases guarded_cases l .addToBalance _ with ⟨e,_,failed⟩ | ⟨_,worked⟩
  · exact .inl ⟨_,e,failed⟩
  · rw [worked]
    cases found : l.row? id with
    | none => exact .inl ⟨_,_,rfl⟩
    | some r =>
      have free : r.holder = none := by
        cases holder : r.holder with
        | none => rfl
        | some other =>
          exact absurd ⟨r,found,Row.mem_seats.mpr (.inl holder)⟩ (vacant other)
      simp only [free,reduceCtorEq,if_false,if_true]
      exact .inr ⟨_,rfl,rfl⟩

theorem delays_of_answered {row : call.Row} (vacant : l.Vacant call)
    (started : l.start now tx call = (l',.answered (.ok row))) : l.delays call = 0 := by
  cases call with
  | begin | insertTransfer | insertEntry | rollback => rfl
  | commit =>
    simp only [start] at started
    split at started
    · cases started
    · rename_i prompt
      simp [delays,prompt,lasting]
  | addToBalance id delta =>
    simp only [start] at started
    rcases requestRow_vacant (vacant id delta rfl) tx with ⟨_,e,failed⟩ | ⟨l₁,taken,same⟩
    · rw [failed] at started
      cases started
    · rw [taken] at started
      simp only [hold] at started
      split at started
      · cases started
      · rename_i prompt
        simp [delays,← same,prompt,lasting]

theorem until_of_waiting {w : Wait} (vacant : l.Vacant call)
    (started : l.start now tx call = (l',.waiting w)) : w = .until (now + l.delays call) := by
  cases call with
  | begin | insertTransfer | insertEntry | rollback => cases started
  | commit =>
    simp only [start] at started
    split at started
    · rename_i delay patient
      cases started
      rw [delays,patient,lasting,restUntil,Option.elim_some]
    · cases started
  | addToBalance id delta =>
    simp only [start] at started
    rcases requestRow_vacant (vacant id delta rfl) tx with ⟨_,e,failed⟩ | ⟨l₁,taken,same⟩
    · rw [failed] at started
      cases started
    · rw [taken] at started
      simp only [hold] at started
      split at started
      · rename_i delay patient
        cases started
        rw [delays,← same,patient,lasting,restUntil,Option.elim_some]
      · cases started

theorem le_of_resumed {time : Nat} {out : Ledger × Progress call.Row}
    (resumed : l.resume now tx call (.until time) = some out) : time ≤ now := by
  cases resumed_of_resume resumed with
  | rested due | commits due => exact due

end Ledger

-- A transfer that begins at `start` rests for `hold` after taking either row, and for `commit` before
-- it commits. It is given `timeout`.
structure Timetable where
  start : Nat
  hold : Nat
  commit : Nat
  timeout : Duration
deriving DecidableEq, Repr

def Timetable.limit (t : Timetable) : Nat := t.timeout.ticks

theorem Phase.touches_of_asks {p : Phase} {m : Movement} {id : AccountId} {delta : Int}
    (asks : p.asks m = .addToBalance id delta) : m.Touches id := by
  cases p <;> simp only [Phase.asks,reduceCtorEq,Call.addToBalance.injEq] at asks
  all_goals
    obtain ⟨rfl,_⟩ := asks
    rcases Movement.updates_cases m with order | order <;> rw [order]
  · exact .inl rfl
  · exact .inr rfl
  · exact .inr rfl
  · exact .inl rfl

namespace Timetable
variable {t : Timetable} {m : Movement} {p : Phase} {call : Call} {r c : Nat}

inductive Arrives (t : Timetable) : Outcome → Nat → Prop where
  | committed {r : Receipt} (within : 2 * t.hold + t.commit ≤ t.limit) :
      Arrives t (.ok r) (2 * t.hold + t.commit)
  | committing (held : 2 * t.hold ≤ t.limit) (late : t.limit < 2 * t.hold + t.commit) :
      Arrives t (.error (.commitTimeout t.timeout)) t.limit
  | holding (late : t.limit < 2 * t.hold) :
      Arrives t (.error (.timeout t.timeout)) t.limit

-- When the transfer comes to a phase, and how long the call takes that is made there.
def leg (t : Timetable) : Phase → Option (Nat × Nat)
  | .recording | .debiting _ | .crediting _ _ => some (0,0)
  | .updatingFirst _ _ _ => some (0,t.hold)
  | .updatingSecond _ _ _ _ => some (t.hold,t.hold)
  | .committing _ => some (2 * t.hold,t.commit)
  | .opening | .rollingBack _ | .ended _ => none

theorem onCourse_of_leg (leg : t.leg p = some (r,c)) : p.OnCourse := by
  cases p <;> trivial

section Calls
variable {onward : Option (Except StoreError call.Row) → Phase} {limit : Duration}

theorem leg_onward (next : p.next m limit = .awaitBefore call onward) (leg : t.leg p = some (r,c))
    (row : call.Row) : (∃ c', t.leg (onward (some (.ok row))) = some (r + c,c')) ∨
      ∃ receipt, onward (some (.ok row)) = .ended (.ok receipt) ∧ r + c = 2 * t.hold + t.commit := by
  cases p <;> simp only [Phase.next,reduceCtorEq] at next
  case committing receipt =>
    cases next
    cases leg
    exact .inr ⟨receipt,rfl,rfl⟩
  all_goals
    cases next
    cases leg
    exact .inl (by simp [Phase.proceed,Timetable.leg,Nat.two_mul])

theorem leg_late (next : p.next m limit = .awaitBefore call onward) (leg : t.leg p = some (r,c)) :
    (onward none = .rollingBack (.timeout limit) ∧ r + c ≤ 2 * t.hold) ∨
      (onward none = .ended (.error (.commitTimeout limit)) ∧ r = 2 * t.hold ∧ c = t.commit) := by
  cases p <;> simp only [Phase.next,reduceCtorEq] at next
  case committing receipt =>
    cases next
    cases leg
    exact .inr ⟨rfl,rfl,rfl⟩
  all_goals
    cases next
    cases leg
    exact .inl ⟨rfl,by omega⟩

end Calls

-- The ledger is as the timetable says, and nobody comes between the transfer and its rows.
structure Favours (t : Timetable) (l : Ledger) (j : Job) : Prop where
  hold : lasting l.lockHold = t.hold
  commit : lasting l.commitDelay = t.commit
  unarmed : l.faults = []
  affords : l.Affords j.plan.movement
  apart : ∀ id, j.plan.movement.Touches id → ∀ tx, l.Seated tx id → j.tx? = some tx

end Timetable

inductive Stage.OnTime (t : Timetable) (now : Nat) : Stage → Prop where
  | opening {d : Nat} {tx : Option TxId} (here : now = t.start) :
      OnTime t now (running 0 tx d .opening none)
  | ready {r c : Nat} {tx : Option TxId} {p : Phase} (leg : t.leg p = some (r,c))
      (here : now = t.start + r) (within : r ≤ t.limit) :
      OnTime t now (running 0 tx (t.start + t.limit) p none)
  | waits {r c : Nat} {tx : Option TxId} {p : Phase} (leg : t.leg p = some (r,c))
      (ahead : now ≤ t.start + r + c) (within : now ≤ t.start + t.limit) (begun : r ≤ t.limit) :
      OnTime t now (running 0 tx (t.start + t.limit) p (some (.until (t.start + r + c))))
  | undoing {d : Nat} {tx : Option TxId} (late : t.limit < 2 * t.hold)
      (here : now = t.start + t.limit) :
      OnTime t now (running 0 tx d (.rollingBack (.timeout t.timeout)) none)
  | answered {d elapsed : Nat} {tx : Option TxId} {outcome : Outcome}
      (arrives : t.Arrives outcome elapsed) (here : now = t.start + elapsed) :
      OnTime t now (running 0 tx d (.ended outcome) none)
  | finished {elapsed : Nat} {outcome : Outcome} (arrives : t.Arrives outcome elapsed) :
      OnTime t now (finished outcome (t.start + elapsed))

namespace Job
variable {t : Timetable} {l l' : Ledger} {j j' : Job} {now n d : Nat} {tx : Option TxId} {p : Phase}
  {call : Call} {onward : Option (Except StoreError call.Row) → Phase}

-- The transfer asks for each row before it has it, so nobody sits there.
theorem vacant_of_favours (favours : t.Favours l j) (consistent : j.Consistent l)
    (stage : j.stage = .running n tx d p none)
    (next : p.next j.plan.movement j.plan.timeout = .awaitBefore call onward) :
    l.Vacant call := by
  rintro id delta rfl other seated
  obtain ⟨own,s,rfl,checked,rests,view⟩ := consistent_inside consistent stage next
  have asks := (Phase.asks_of_next next).symm
  have mine := favours.apart id (Phase.touches_of_asks asks) other seated
  rw [Job.tx?,stage,tx?_of_rests rests] at mine
  cases Option.some.inj mine
  have held := view.held_of_seated rests.idle seated
  exact Int.lt_irrefl id (rests.below (Movement.check_eq_ok.mp checked).1 asks id held)

theorem delays_of_leg (favours : t.Favours l j) (leg : t.leg p = some (r,c))
    (next : p.next j.plan.movement j.plan.timeout = .awaitBefore call onward) :
    l.delays call = c := by
  have hold := favours.hold
  have commit := favours.commit
  cases p <;> simp only [Phase.next,reduceCtorEq] at next
  all_goals
    cases next
    cases leg
    first | rfl | exact hold | exact commit

theorem onTime_onward (leg : t.leg p = some (r,c))
    (next : p.next j.plan.movement j.plan.timeout = .awaitBefore call onward) (row : call.Row)
    (here : now = t.start + (r + c)) (within : r + c ≤ t.limit) :
    (Stage.running 0 tx (t.start + t.limit) (onward (some (.ok row))) none).OnTime t now := by
  rcases Timetable.leg_onward next leg row with ⟨c',leg'⟩ | ⟨receipt,done,whole⟩
  · exact .ready leg' here within
  · rw [done]
    rw [whole] at here within
    exact .answered (.committed within) here

theorem favoured {w : Option Wait} (consistent : j.Consistent l)
    (favours : j.stage.call?.isSome = true → t.Favours l j)
    (stage : j.stage = .running n tx d p w)
    (next : p.next j.plan.movement j.plan.timeout = .awaitBefore call onward)
    (leg : t.leg p = some (r,c)) : t.Favours l j ∧ l.Grants (tx.getD l.nextTx) call := by
  have unended : ∀ outcome, p ≠ .ended outcome := by
    rintro outcome rfl
    cases leg
  have favours := favours (by rw [stage,Stage.call?_running unended]; rfl)
  exact ⟨favours,
    grants_asked consistent stage (Timetable.onCourse_of_leg leg) (fun _ => favours.affords) next⟩

theorem answered_onTime {answer : Except StoreError call.Row} {tx' : Option TxId}
    (favours : t.Favours l j) (grants : l.Grants (tx.getD l.nextTx) call)
    (consistent : j.Consistent l)
    (plain : j.plan.failures = []) (stage : j.stage = .running n tx d p none)
    (next : p.next j.plan.movement j.plan.timeout = .awaitBefore call onward)
    (issued : j.issue l now (tx.getD l.nextTx) call = (l',.answered answer))
    (leg : t.leg p = some (r,c)) (here : now = t.start + r) (within : r ≤ t.limit) :
    (Stage.running 0 tx' (t.start + t.limit) (onward (some answer)) none).OnTime t now := by
  obtain ⟨row,rfl⟩ := (issued_clear favours.unarmed plain grants issued).row
  rw [issue_plain plain] at issued
  have prompt := Ledger.delays_of_answered (vacant_of_favours favours consistent stage next) issued
  rw [delays_of_leg favours leg next] at prompt
  subst prompt
  exact onTime_onward leg next row here within

theorem waiting_onTime {w : Wait} {tx' : Option TxId} (favours : t.Favours l j)
    (consistent : j.Consistent l)
    (plain : j.plan.failures = []) (stage : j.stage = .running n tx d p none)
    (next : p.next j.plan.movement j.plan.timeout = .awaitBefore call onward)
    (issued : j.issue l now (tx.getD l.nextTx) call = (l',.waiting w))
    (leg : t.leg p = some (r,c)) (here : now = t.start + r) (within : r ≤ t.limit) :
    (Stage.running 0 tx' (t.start + t.limit) p (some w)).OnTime t now := by
  rw [issue_plain plain] at issued
  have rests := Ledger.until_of_waiting (vacant_of_favours favours consistent stage next) issued
  rw [delays_of_leg favours leg next,here] at rests
  subst rests
  exact .waits leg (by omega) (by omega) within

theorem late_onTime {tx' : Option TxId} (timeout : j.plan.timeout = t.timeout)
    (next : p.next j.plan.movement j.plan.timeout = .awaitBefore call onward)
    (leg : t.leg p = some (r,c)) (early : now < t.start + r + c) (here : now = t.start + t.limit)
    (begun : r ≤ t.limit) : (Stage.running 0 tx' d (onward none) none).OnTime t now := by
  rcases Timetable.leg_late next leg with ⟨undone,held⟩ | ⟨left,held,rests⟩
  · rw [undone,timeout]
    exact .undoing (by omega) here
  · rw [left,timeout]
    exact .answered (.committing (by omega) (by omega)) here

theorem step_onTime (consistent : j.Consistent l) (fits : j.Fits) (once : j.plan.retry = none)
    (plain : j.plan.failures = []) (timeout : j.plan.timeout = t.timeout)
    (favours : j.stage.call?.isSome = true → t.Favours l j) (onTime : j.stage.OnTime t now)
    (stepped : j.step now l = some (l',j')) : j'.stage.OnTime t now := by
  have limit : j.plan.limit = t.limit := congrArg Duration.ticks timeout
  cases step_sound stepped with
  | wake stage =>
    rw [stage] at onTime
    cases onTime
  | rest stage again => exact absurd rfl (not_resting_of_once once stepped _ _)
  | finish stage =>
    rw [stage] at onTime
    cases onTime with
    | ready leg => cases leg
    | waits leg => cases leg
    | answered arrives here =>
      rw [here]
      exact .finished arrives
  | @await _ _ tx p _ _ _ _ _ stage next issued =>
    rw [stage] at onTime
    cases onTime with
    | answered => cases next
    | ready leg | waits leg =>
      cases p <;> simp only [Phase.next,reduceCtorEq] at next <;> cases leg
    | undoing late here =>
      cases next
      exact .answered (.holding late) here
    | opening here =>
      cases next
      have unarmed := (favours (by rw [stage]; rfl)).unarmed
      have grants : l.Grants (tx.getD l.nextTx) .begin := trivial
      obtain ⟨row,rfl⟩ := (issued_clear unarmed plain grants issued).row
      simp only [limit,here]
      exact .ready rfl rfl (Nat.zero_le _)
  | answered stage next issued =>
    rw [stage] at onTime
    cases onTime with
    | opening | undoing | answered => cases next
    | ready leg here within =>
      obtain ⟨favours,grants⟩ := favoured consistent favours stage next leg
      exact answered_onTime favours grants consistent plain stage next issued leg here within
  | waits stage next issued =>
    rw [stage] at onTime
    cases onTime with
    | opening | undoing | answered => cases next
    | ready leg here within =>
      obtain ⟨favours,_⟩ := favoured consistent favours stage next leg
      exact waiting_onTime favours consistent plain stage next issued leg here within
  | resumed stage next resumed =>
    rw [stage] at onTime
    cases onTime with
    | waits leg ahead within begun =>
      obtain ⟨favours,grants⟩ := favoured consistent favours stage next leg
      obtain ⟨row,rfl⟩ := (Ledger.resume_clear favours.unarmed grants resumed).row
      have rested := Ledger.le_of_resumed resumed
      exact onTime_onward leg next row (by omega) (by omega)
  | waitsOn stage next resumed =>
    rw [stage] at onTime
    obtain ⟨⟨id,rfl⟩,_⟩ := Ledger.waits_of_resume resumed
    cases onTime
  | late stage next waiting late =>
    rw [stage] at onTime
    cases onTime with
    | waits leg ahead within begun =>
      obtain ⟨call,onward,next',waits⟩ := fits _ _ _ _ _ stage
      cases next.symm.trans next'
      have early := Ledger.lt_of_resume waits waiting
      exact late_onTime timeout next leg early (by omega) begun

theorem sleeps_onTime {later : Nat} (asleep : j.Sleeps now l later) (onTime : j.stage.OnTime t now) :
    j.stage.OnTime t later := by
  obtain ⟨still,due⟩ := asleep
  cases stage : j.stage with
  | resting | cancelled =>
    rw [stage] at onTime
    cases onTime
  | finished outcome last =>
    rw [stage] at onTime
    cases onTime with
    | finished arrives => exact .finished arrives
  | running n tx d p w =>
    obtain ⟨call,onward,wait,next,rfl⟩ := waits_of_still stage (Option.isNone_iff_eq_none.mp still)
    rw [stage] at onTime due
    cases onTime with
    | @waits r c _ _ leg ahead within begun =>
      have bound := due (min (t.start + r + c) (t.start + t.limit)) rfl
      exact .waits leg (Nat.le_trans bound (Nat.min_le_left _ _))
        (Nat.le_trans bound (Nat.min_le_right _ _)) begun

structure Travels (t : Timetable) (plan : JobPlan) (now : Nat) (j : Job) : Prop where
  plan : j.plan = plan
  started : j.started = t.start
  fits : j.Fits
  onTime : j.stage.OnTime t now

theorem start_travels {plan : JobPlan} (once : plan.retry = none)
    (checked : plan.movement.check = .ok ()) (l : Ledger) :
    (start t.start l plan).Travels t plan t.start := by
  refine ⟨rfl,rfl,start_fits _ _ _,?_⟩
  rw [start_plain _ _ once checked]
  exact .opening rfl

end Job

def Bank.Favours (t : Timetable) (i : Nat) (b : Bank) : Prop :=
  ∀ j, b.jobs[i]? = some j → j.stage.call?.isSome = true → t.Favours b.ledger j

section Running
variable {t : Timetable} {plan : JobPlan} {history later : List Turn} {b b₁ b' : Bank} {i : Nat}

theorem keeps_travels (once : plan.retry = none) (plain : plan.failures = [])
    (timeout : plan.timeout = t.timeout) (i : Nat) :
    Keeps (fun now j => j.Travels t plan now) (Bank.Favours t i) i where
  steps := by
    rintro b j l' j' favours sound found ⟨rfl,started,fits,onTime⟩ stepped
    obtain ⟨plan,started'⟩ := Job.step_keeps stepped
    exact ⟨plan,started'.trans started,Job.step_fits stepped,
      Job.step_onTime (sound.job found) fits once plain timeout (favours j found) onTime stepped⟩
  sleeps := by
    rintro now l later j asleep - ⟨rfl,started,fits,onTime⟩
    exact ⟨rfl,started,fits,Job.sleeps_onTime asleep onTime⟩

-- In every run in virtual time that favours it and does not drop it, a transfer is on time.
theorem runs_travels (sound : b₁.Sound) (launched : b₁.jobs[i]? = some (Job.start t.start l plan))
    (clock : b₁.clock = t.start) (onward : Runs b₁ later b') (timely : Timely later)
    (once : plan.retry = none) (plain : plan.failures = [])
    (checked : plan.movement.check = .ok ()) (timeout : plan.timeout = t.timeout)
    (undropped : ∀ turn ∈ later, turn.move ≠ .abort i)
    (favours : ∀ turn ∈ later, turn.before.Favours t i) :
    ∃ j, b'.jobs[i]? = some j ∧ j.Travels t plan b'.clock := by
  have start : (Job.start t.start l plan).Travels t plan b₁.clock := by
    rw [clock]
    exact Job.start_travels once checked l
  exact (onward.keeps (keeps_travels once plain timeout i) sound timely favours launched
    (fun turn member dropped => absurd dropped (undropped turn member)) start).2

end Running

end DoubleEntry
