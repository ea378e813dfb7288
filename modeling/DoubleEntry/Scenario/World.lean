import DoubleEntry.Scenario.Job

namespace DoubleEntry

structure World where
  clock : Nat := 0
  ledger : Ledger := {}
  jobs : List Job := []
  -- names of transactions opened by hand, and of jobs by their position
  sessions : List (String × TxId) := []
  tasks : List (String × Nat) := []

namespace World

def stepFirst (now : Nat) (l : Ledger) : List Job → Option (Ledger × List Job)
  | [] => none
  | j :: rest =>
    match j.step now l with
    | some (l,j) => some (l,j :: rest)
    | none => (stepFirst now l rest).map fun (l,rest) => (l,j :: rest)

def step (w : World) : Option World :=
  (stepFirst w.clock w.ledger w.jobs).map fun (l,jobs) => { w with ledger := l, jobs := jobs }

-- No run makes more steps than this.
def stepBound (w : World) : Nat := (w.jobs.map (·.plan.stepBound)).foldr (· + ·) 0

def settleWithin : Nat → World → World
  | 0, w => w
  | n + 1, w =>
    match w.step with
    | some w => settleWithin n w
    | none => w

def settle (w : World) : World := settleWithin w.stepBound w

def nextDue (w : World) : Option Nat := (w.jobs.filterMap (·.stage.due)).min?

def runWithin (limit : Option Nat) (done : World → Bool) : Nat → World → World
  | 0, w => w
  | n + 1, w =>
    let w := w.settle
    if done w then w
    else match w.nextDue,limit with
      | some t,some u =>
        if t ≤ u then runWithin limit done n { w with clock := t } else { w with clock := u }
      | some t,none => runWithin limit done n { w with clock := t }
      | none,some u => { w with clock := u }
      | none,none => w

-- Lets time pass until `done` holds, or up to `limit`. What is due exactly then still happens.
def runUntil (w : World) (limit : Option Nat) (done : World → Bool) : World :=
  runWithin limit done (w.stepBound + 2) w

def sleep (w : World) (ms : Nat) : World := w.runUntil (some (restUntil w.clock ms)) fun _ => false

def launch (w : World) (plan : JobPlan) : World × Nat :=
  ({ w with jobs := w.jobs ++ [Job.start w.clock w.ledger plan] }.settle,w.jobs.length)

def settled (w : World) (i : Nat) : Bool := (w.jobs[i]?).all (·.stage.settled)

def await (w : World) (i : Nat) : World := w.runUntil none (·.settled i)

-- A call waits at most twice: for a row, then for the delay after taking it.
def awaitAnswer (tx : TxId) (call : Call) (deadline : Option Nat) :
    Nat → World → Wait → World × Option (Except StoreError call.Row)
  | 0, w, _ => (w,none)
  | n + 1, w, wait =>
    let limit :=
      match wait with
      | .row _ => deadline
      | .until time => some (deadline.elim time (min time))
    let w := w.runUntil limit fun w => (w.ledger.resume w.clock tx call wait).isSome
    match w.ledger.resume w.clock tx call wait with
    | none => ({ w with ledger := w.ledger.giveUp tx call },none)
    | some (l,.answered answer) => ({ w with ledger := l },some answer)
    | some (l,.waiting wait) => awaitAnswer tx call deadline n { w with ledger := l } wait

-- A call made by hand; `none` if it has no answer by the deadline and is given up.
def call (w : World) (tx : TxId) (call : Call) (deadline : Option Nat) :
    World × Option (Except StoreError call.Row) :=
  match w.ledger.start w.clock tx call with
  | (l,.answered answer) => ({ w with ledger := l },some answer)
  | (l,.waiting wait) => awaitAnswer tx call deadline 2 { w with ledger := l } wait

end World
end DoubleEntry
