import DoubleEntry.Ledger.Progress
import DoubleEntry.Transfer.Retry

namespace DoubleEntry

-- The `nth` call of this kind in a job fails before it reaches the ledger.
structure PlannedFailure where
  kind : CallKind
  nth : Nat
  error : StoreError
deriving DecidableEq, Repr

structure LookupFailure where
  nth : Nat
  error : StoreError
deriving DecidableEq, Repr

-- Without a retry policy the transfer is tried once and its request is not validated.
structure JobPlan where
  request : TransferRequest
  timeout : Duration := .ofMillis 5000
  retry : Option RetryPolicy := none
  failures : List PlannedFailure := []
  lookupFailure : Option LookupFailure := none
deriving DecidableEq, Repr

inductive Stage where
  | running (attempt : Nat) (tx : Option TxId) (deadline : Nat) (phase : Phase) (wait : Option Wait)
  | resting (attempt : Nat) (time : Nat)
  | finished (outcome : Outcome) (time : Nat)
  | cancelled

structure Job where
  plan : JobPlan
  started : Nat
  calls : List Call := []
  stage : Stage

namespace Ledger

def lookup (l : Ledger) (failure : Option LookupFailure) : AccountLookup (StateM Nat) :=
  fun id done =>
    let nth := done + 1
    match failure with
    | some f => (if f.nth = nth then .error f.error else .ok (l.account? id),nth)
    | none => (.ok (l.account? id),nth)

def validate (l : Ledger) (r : TransferRequest) (failure : Option LookupFailure) :
    Except TransferError (Account × Account) :=
  ((r.validate (l.lookup failure)).run.run 0).1

end Ledger

namespace JobPlan

def movement (p : JobPlan) : Movement := p.request.toMovement

def limit (p : JobPlan) : Nat := p.timeout.ticks

def policy (p : JobPlan) : RetryPolicy := p.retry.getD ⟨0,0⟩

-- The failure planned for the next call of this kind; of several the first counts.
def failure? (p : JobPlan) (made : List Call) (kind : CallKind) : Option StoreError :=
  let nth := made.countP (·.kind = kind) + 1
  (p.failures.find? fun f => f.kind = kind ∧ f.nth = nth).map (·.error)

-- More than the steps of all attempts together.
def stepBound (p : JobPlan) : Nat := (p.policy.maxRetries + 1) * 32

end JobPlan

namespace Stage

def attempt (plan : JobPlan) (number : Nat) : Stage :=
  .running number none 0 (.start plan.movement) none

def due : Stage → Option Nat
  | running _ _ deadline _ (some (.until time)) => some (min time deadline)
  | running _ _ deadline _ (some (.row _)) => some deadline
  | resting _ time => some time
  | _ => none

def settled : Stage → Bool
  | finished _ _ => true
  | cancelled => true
  | _ => false

end Stage

namespace Job

def start (now : Nat) (l : Ledger) (plan : JobPlan) : Job :=
  let stage : Stage :=
    match plan.retry with
    | none => .attempt plan 0
    | some _ =>
      match l.validate plan.request plan.lookupFailure with
      | .ok _ => .attempt plan 0
      | .error e => .finished (.error e) now
  { plan := plan, started := now, stage := stage }

-- A planned failure of the commit or the rollback leaves the transaction without an end of its own.
def fail (l : Ledger) (tx : TxId) : Call → Ledger
  | .commit | .rollback => l.discard tx
  | _ => l

def issue (j : Job) (l : Ledger) (now : Nat) (tx : TxId) (call : Call) :
    Ledger × Progress call.Row :=
  match j.plan.failure? j.calls call.kind with
  | some e => (fail l tx call,.answered (.error e))
  | none => l.start now tx call

-- One step, if the job is not waiting. Work that is ready is done before the deadline is looked
-- at, so a call that is complete exactly then still counts.
def step (now : Nat) (l : Ledger) (j : Job) : Option (Ledger × Job) :=
  match j.stage with
  | .finished _ _ => none
  | .cancelled => none
  | .resting number time =>
    if time ≤ now then some (l,{ j with stage := .attempt j.plan number }) else none
  | .running number tx deadline phase wait =>
    match phase.next j.plan.movement j.plan.timeout,wait with
    | .ended outcome,_ =>
      match j.plan.policy.again? number outcome with
      | some ticks => some (l,{ j with stage := .resting (number + 1) (restUntil now ticks) })
      | none => some (l,{ j with stage := .finished outcome now })
    | .await call resume,_ =>
      let tx := tx.getD l.nextTx
      match j.issue l now tx call with
      | (l,.answered answer) =>
        some (l,{ j with
          calls := j.calls ++ [call]
          stage := .running number (some tx) (now + j.plan.limit) (resume answer) none })
      | (_,.waiting _) => none
    | .awaitBefore call resume,none =>
      let tx := tx.getD l.nextTx
      let calls := j.calls ++ [call]
      match j.issue l now tx call with
      | (l,.answered answer) =>
        some (l,{ j with
          calls := calls
          stage := .running number (some tx) deadline (resume (some answer)) none })
      | (l,.waiting w) =>
        some (l,{ j with
          calls := calls
          stage := .running number (some tx) deadline phase (some w) })
    | .awaitBefore call resume,some w =>
      let tx := tx.getD l.nextTx
      match l.resume now tx call w with
      | some (l,.answered answer) =>
        some (l,{ j with stage := .running number (some tx) deadline (resume (some answer)) none })
      | some (l,.waiting w) =>
        some (l,{ j with stage := .running number (some tx) deadline phase (some w) })
      | none =>
        if deadline ≤ now then
          some (l.giveUp tx call,
            { j with stage := .running number (some tx) deadline (resume none) none })
        else none

-- Drops the job where it waits, and its transaction with it. A finished job stays finished.
def abort (l : Ledger) (j : Job) : Ledger × Job :=
  match j.stage with
  | .finished _ _ => (l,j)
  | .running _ (some tx) _ _ _ => (l.discard tx,{ j with stage := .cancelled })
  | _ => (l,{ j with stage := .cancelled })

end Job
end DoubleEntry
