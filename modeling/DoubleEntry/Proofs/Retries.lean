import DoubleEntry.Clock.Rest
import DoubleEntry.Scenario.World
import Mathlib.Algebra.BigOperators.Group.Finset.Basic
import Mathlib.Tactic.Ring

namespace DoubleEntry

inductive Event where
  | look (account : AccountId)
  | attempt (m : Movement)
  | rest (ticks : Nat)
deriving DecidableEq, Repr

-- What lies before a request: the answer of each lookup and the outcome of each attempt, counted from
-- 0, and how long each of them takes.
structure Prospect where
  found : Nat → AccountId → Except StoreError (Option Account)
  looking : Nat → Nat
  outcome : Nat → Outcome
  trying : Nat → Nat

structure Diary where
  clock : Nat
  looks : Nat := 0
  tries : Nat := 0
  events : List (Nat × Event) := []

namespace Prospect

def find (w : Prospect) : AccountLookup (StateM Diary) := fun id d =>
  (w.found d.looks id,
    { d with
      clock := d.clock + w.looking d.looks
      looks := d.looks + 1
      events := d.events ++ [(d.clock,.look id)] })

def submit (w : Prospect) (m : Movement) : StateM Diary Outcome := fun d =>
  (w.outcome d.tries,
    { d with
      clock := d.clock + w.trying d.tries
      tries := d.tries + 1
      events := d.events ++ [(d.clock,.attempt m)] })

end Prospect

def pause (ticks : Nat) : StateM Diary Unit := fun d =>
  ((),{ d with clock := restUntil d.clock ticks, events := d.events ++ [(d.clock,.rest ticks)] })

def Diary.look (w : Prospect) (d : Diary) (ids : List AccountId) : Diary :=
  ids.foldl (fun d id => (w.find id d).2) d

def Repeatable : Outcome → Prop
  | .ok _ => False
  | .error e => e.retryable = true

instance (outcome : Outcome) : Decidable (Repeatable outcome) := by
  cases outcome <;> unfold Repeatable <;> infer_instance

namespace RetryPolicy

theorem again?_eq (p : RetryPolicy) (attempt : Nat) (outcome : Outcome) :
    p.again? attempt outcome =
      if Repeatable outcome ∧ attempt < p.maxRetries then some (p.backoff * (attempt + 1))
      else none := by
  cases outcome with
  | ok => simp [again?,Repeatable]
  | error e => rfl

-- The first attempt that is not worth repeating, or else the last one allowed.
structure Last (p : RetryPolicy) (outcome : Nat → Outcome) (k : Nat) : Prop where
  within : k ≤ p.maxRetries
  repeated : ∀ i < k, Repeatable (outcome i)
  enough : k < p.maxRetries → ¬Repeatable (outcome k)

def rested (p : RetryPolicy) (attempt : Nat) : Nat :=
  ∑ i ∈ Finset.range attempt, min (p.backoff * (i + 1)) longestRest

def begins (p : RetryPolicy) (w : Prospect) (since attempt : Nat) : Nat :=
  since + ∑ i ∈ Finset.range attempt, w.trying i + p.rested attempt

def trail (p : RetryPolicy) (w : Prospect) (m : Movement) (since attempt : Nat) :
    List (Nat × Event) :=
  (List.range attempt).flatMap fun i =>
    [(p.begins w since i,.attempt m),
      (p.begins w since i + w.trying i,.rest (p.backoff * (i + 1)))]

theorem rested_succ (p : RetryPolicy) (attempt : Nat) :
    p.rested (attempt + 1) = p.rested attempt + min (p.backoff * (attempt + 1)) longestRest :=
  Finset.sum_range_succ ..

theorem rested_eq (p : RetryPolicy) {attempt : Nat} (short : p.backoff * attempt ≤ longestRest) :
    p.rested attempt * 2 = p.backoff * (attempt * (attempt + 1)) := by
  induction attempt with
  | zero => simp [rested]
  | succ k ih =>
    have less : p.backoff * k ≤ p.backoff * (k + 1) := Nat.mul_le_mul_left _ (Nat.le_succ k)
    rw [rested_succ,Nat.min_eq_left short,Nat.add_mul,ih (less.trans short)]
    ring

theorem begins_succ (p : RetryPolicy) (w : Prospect) (since attempt : Nat) :
    p.begins w since (attempt + 1) =
      restUntil (p.begins w since attempt + w.trying attempt) (p.backoff * (attempt + 1)) := by
  unfold begins restUntil
  rw [rested_succ,Finset.sum_range_succ]
  omega

section Attempts
variable (p : RetryPolicy) (w : Prospect) (m : Movement) (d : Diary)

def eve (attempt : Nat) : Diary :=
  { d with
    clock := p.begins w d.clock attempt
    tries := attempt
    events := d.events ++ p.trail w m d.clock attempt }

def tried (attempt : Nat) : Diary :=
  { d with
    clock := p.begins w d.clock attempt + w.trying attempt
    tries := attempt + 1
    events := d.events ++ p.trail w m d.clock attempt ++
      [(p.begins w d.clock attempt,.attempt m)] }

theorem eve_zero (fresh : d.tries = 0) : p.eve w m d 0 = d := by
  cases d
  cases fresh
  simp [eve,begins,rested,trail]

theorem submit_eve (attempt : Nat) :
    (w.submit m).run (p.eve w m d attempt) = pure (w.outcome attempt,p.tried w m d attempt) := rfl

theorem pause_tried (attempt : Nat) :
    (pause (p.backoff * (attempt + 1))).run (p.tried w m d attempt) =
      pure ((),p.eve w m d (attempt + 1)) := by
  simp only [StateT.run,pause,eve,tried,begins_succ,trail,List.range_succ,List.flatMap_append,
    List.flatMap_singleton,List.append_assoc,List.cons_append,List.nil_append]
  rfl

theorem runFrom_eve (attempt : Nat) :
    (p.runFrom (w.submit m) pause attempt).run (p.eve w m d attempt) =
      if Repeatable (w.outcome attempt) ∧ attempt < p.maxRetries then
        (p.runFrom (w.submit m) pause (attempt + 1)).run (p.eve w m d (attempt + 1))
      else (w.outcome attempt,p.tried w m d attempt) := by
  rw [runFrom_eq,StateT.run_bind,submit_eve,pure_bind]
  by_cases again : Repeatable (w.outcome attempt) ∧ attempt < p.maxRetries
  · simp only [again?_eq,if_pos again]
    rw [StateT.run_bind,pause_tried,pure_bind]
  · simp only [again?_eq,if_neg again]
    rfl

-- By induction on the attempts that are still allowed.
theorem runFrom_last {attempt : Nat} (allowed : attempt ≤ p.maxRetries)
    (repeated : ∀ i < attempt, Repeatable (w.outcome i)) :
    ∃ k, p.Last w.outcome k ∧
      (p.runFrom (w.submit m) pause attempt).run (p.eve w m d attempt) =
        (w.outcome k,p.tried w m d k) := by
  induction left : p.maxRetries - attempt generalizing attempt with
  | zero =>
    refine ⟨attempt,⟨allowed,repeated,fun more => absurd more (by omega)⟩,?_⟩
    rw [runFrom_eve,if_neg fun again => absurd again.2 (by omega)]
  | succ n ih =>
    by_cases again : Repeatable (w.outcome attempt)
    · have further : ∀ i < attempt + 1, Repeatable (w.outcome i) := by
        intro i less
        rcases Nat.lt_succ_iff_lt_or_eq.mp less with earlier | rfl
        · exact repeated i earlier
        · exact again
      obtain ⟨k,last,same⟩ := ih (by omega) further (by omega)
      refine ⟨k,last,?_⟩
      rw [runFrom_eve,if_pos ⟨again,by omega⟩,same]
    · refine ⟨attempt,⟨allowed,repeated,fun _ => again⟩,?_⟩
      rw [runFrom_eve,if_neg fun both => again both.1]

end Attempts

end RetryPolicy

section Validation
variable {w : Prospect} {α β : Type}

theorem Diary.look_append (d : Diary) (seen more : List AccountId) :
    d.look w (seen ++ more) = (d.look w seen).look w more := List.foldl_append

-- The check looks these accounts up, one after another, and stops where it fails.
def Looks (w : Prospect) (x : ExceptT TransferError (StateM Diary) α) (ids : List AccountId) :
    Prop :=
  ∀ d, ∃ result seen, seen <+: ids ∧ x.run.run d = (result,d.look w seen) ∧
    ∀ a, result = .ok a → seen = ids

theorem Looks.bind {x : ExceptT TransferError (StateM Diary) α}
    {f : α → ExceptT TransferError (StateM Diary) β} {ids more : List AccountId}
    (first : Looks w x ids) (onward : ∀ a, Looks w (f a) more) :
    Looks w (x >>= f) (ids ++ more) := by
  intro d
  have split : (x >>= f).run.run d =
      match x.run.run d with
      | (.ok a,d') => (f a).run.run d'
      | (.error e,d') => (.error e,d') := by
    rw [ExceptT.run_bind,StateT.run_bind]
    rcases x.run.run d with ⟨_ | a,d'⟩ <;> rfl
  obtain ⟨result,seen,before,ran,whole⟩ := first d
  rw [split,ran]
  cases result with
  | error e => exact ⟨.error e,seen,before.trans (List.prefix_append _ _),rfl,by simp⟩
  | ok a =>
    cases whole a rfl
    obtain ⟨result',seen',before',ran',whole'⟩ := onward a (d.look w ids)
    refine ⟨result',ids ++ seen',(List.prefix_append_right_inj ids).mpr before',?_,?_⟩
    · rw [Diary.look_append]
      exact ran'
    · intro b same
      rw [whole' b same]

theorem Looks.except (x : Except TransferError α) : Looks w (liftExcept x) [] := by
  intro d
  cases x <;> exact ⟨_,[],List.nil_prefix,rfl,fun _ _ => rfl⟩

theorem Looks.pure (a : α) : Looks w (Pure.pure a) [] :=
  fun _ => ⟨.ok a,[],List.nil_prefix,rfl,fun _ _ => rfl⟩

theorem Looks.throw (e : TransferError) :
    Looks w (throw e : ExceptT TransferError (StateM Diary) α) [] :=
  fun _ => ⟨.error e,[],List.nil_prefix,rfl,fun _ _ => rfl⟩

theorem Looks.resolve (id : AccountId) : Looks w (TransferRequest.resolve w.find id) [id] := by
  have looked : Looks w (ExceptT.lift (w.find id)) [id] :=
    fun d => ⟨.ok (w.found d.looks id),[id],List.prefix_rfl,rfl,fun _ _ => rfl⟩
  refine looked.bind fun found => ?_
  match found with
  | .error e => exact .throw (.lookup e)
  | .ok none => exact .throw (.accountNotFound id)
  | .ok (some account) => exact .pure account

theorem Looks.validate (r : TransferRequest) :
    Looks w (r.validate w.find) [r.source,r.destination] := by
  refine (Looks.except _).bind fun _ => (Looks.resolve r.source).bind fun _ => ?_
  refine (Looks.except _).bind fun _ => (Looks.resolve r.destination).bind fun _ => ?_
  exact (Looks.except _).bind fun _ => .pure _

theorem Diary.look_events (d : Diary) (ids : List AccountId) :
    (d.look w ids).events.map Prod.snd = d.events.map Prod.snd ++ ids.map .look := by
  induction ids generalizing d with
  | nil => simp [look]
  | cons id rest ih =>
    have first := ih (w.find id d).2
    simpa [look,Prospect.find] using first

theorem Diary.look_tries (d : Diary) (ids : List AccountId) : (d.look w ids).tries = d.tries := by
  induction ids generalizing d with
  | nil => rfl
  | cons id rest ih => exact ih (w.find id d).2

theorem RetryPolicy.serve_run (p : RetryPolicy) (r : TransferRequest) (d : Diary) :
    (p.serve w.find w.submit pause r).run d =
      match (r.validate w.find).run.run d with
      | (.error e,d') => (.error e,d')
      | (.ok _,d') => (p.run (w.submit r.toMovement) pause).run d' := by
  unfold serve
  rw [StateT.run_bind]
  rcases (r.validate w.find).run.run d with ⟨_ | _,d'⟩ <;> rfl

end Validation

-- A request is answered with what failed in its validation, or tried until an attempt is not worth
-- repeating or is the last; the i-th further attempt follows a rest of i times the backoff, or of
-- the longest rest there is.
theorem request_resubmitted (p : RetryPolicy) (w : Prospect) (r : TransferRequest) (now : Nat) :
    let (checked,d) := (r.validate w.find).run.run { clock := now }
    let served := (p.serve w.find w.submit pause r).run { clock := now }
    match checked with
    | .error e => served = (.error e,d) ∧ d.tries = 0 ∧
        ∃ ids, ids <+: [r.source,r.destination] ∧ d.events.map Prod.snd = ids.map .look
    | .ok _ =>
      d.events = [(now,.look r.source),(now + w.looking 0,.look r.destination)] ∧
      d.clock = now + w.looking 0 + w.looking 1 ∧
      ∃ k, p.Last w.outcome k ∧
        served = (w.outcome k,
          { clock := p.begins w d.clock k + w.trying k
            looks := 2
            tries := k + 1
            events := d.events ++ p.trail w r.toMovement d.clock k ++
              [(p.begins w d.clock k,.attempt r.toMovement)] }) ∧
        (p.backoff * k ≤ longestRest → p.rested k * 2 = p.backoff * (k * (k + 1))) ∧
        (Repeatable (w.outcome k) → k = p.maxRetries) := by
  obtain ⟨result,seen,before,ran,whole⟩ := Looks.validate (w := w) r { clock := now }
  dsimp only
  rw [RetryPolicy.serve_run,ran]
  cases result with
  | error e =>
    exact ⟨rfl,Diary.look_tries _ seen,seen,before,Diary.look_events _ seen⟩
  | ok accounts =>
    cases whole accounts rfl
    obtain ⟨k,last,tried⟩ := p.runFrom_last w r.toMovement
      (Diary.look w { clock := now } [r.source,r.destination]) (Nat.zero_le _) (by simp)
    rw [RetryPolicy.eve_zero _ _ _ _ rfl] at tried
    refine ⟨rfl,rfl,k,last,?_,p.rested_eq,fun again => ?_⟩
    · exact tried
    · rcases Nat.lt_or_eq_of_le last.within with less | same
      · exact absurd again (last.enough less)
      · exact same

-- Three transactions in a row cannot be opened. The rests asked for after them are 400, 800 and 1200
-- thousand million milliseconds; the last of these is longer than any rest.
def patience : JobPlan :=
  { request := { source := 1, destination := 2, amount := 3 }
    retry := some ⟨3,400000000000⟩
    failures := [1,2,3].map fun nth => ⟨.begin,nth,.transient "s"⟩ }

def patient : World :=
  let l := (({} : Ledger).createAccount "alice" .usd 9 (.ofMillis 0)).1
  let l := (l.createAccount "alice" .usd 1 (.ofMillis 0)).1
  (({ ledger := l } : World).launch patience).1.await 0

theorem long_rest_cut :
    patient.settled 0 = true ∧ patient.ledger.balances = [(1,6),(2,4)] ∧
      patient.jobs.map (fun j => (j.started,j.calls.count .begin)) = [(0,3 + 1)] ∧
      patient.clock = 400000000000 + 800000000000 + longestRest ∧
      patient.clock ≠ 400000000000 * (3 * (3 + 1)) / 2 := by
  decide +kernel

end DoubleEntry
