import DoubleEntry.Transfer.Phase
import DoubleEntry.Transfer.Validation

namespace DoubleEntry

-- The backoff counts the ticks of whatever clock the caller waits on.
structure RetryPolicy where
  maxRetries : Nat
  backoff : Nat
deriving DecidableEq, Repr, Inhabited

namespace RetryPolicy

-- After the attempt with this number, counted from 0: the wait before another one, if any.
def again? (p : RetryPolicy) (attempt : Nat) : Outcome → Option Nat
  | .ok _ => none
  | .error e =>
    if e.retryable ∧ attempt < p.maxRetries then some (p.backoff * (attempt + 1)) else none

theorem lt_of_again? {p : RetryPolicy} {attempt : Nat} {outcome : Outcome} {wait : Nat}
    (h : p.again? attempt outcome = some wait) : attempt < p.maxRetries := by
  unfold again? at h
  split at h
  · cases h
  · split at h
    · rename_i allowed
      exact allowed.2
    · cases h

theorem retryable_of_again? {p : RetryPolicy} {attempt : Nat} {e : TransferError} {wait : Nat}
    (h : p.again? attempt (.error e) = some wait) : e.retryable = true := by
  simp only [again?] at h
  split at h
  · rename_i allowed
    exact allowed.1
  · cases h

def runFrom [Monad m] (p : RetryPolicy) (submit : m Outcome) (wait : Nat → m Unit)
    (attempt : Nat) : m Outcome := do
  let outcome ← submit
  match h : p.again? attempt outcome with
  | none => pure outcome
  | some ticks => do
    wait ticks
    p.runFrom submit wait (attempt + 1)
termination_by p.maxRetries - attempt
decreasing_by
  have := lt_of_again? h
  omega

theorem runFrom_eq {μ : Type → Type} [Monad μ] (policy : RetryPolicy)
    (submit : μ Outcome) (wait : Nat → μ Unit) (attempt : Nat) :
    policy.runFrom submit wait attempt = submit >>= fun outcome =>
      match policy.again? attempt outcome with
      | none => pure outcome
      | some ticks => wait ticks >>= fun _ => policy.runFrom submit wait (attempt + 1) := by
  rw [runFrom]
  congr 1
  funext outcome
  split <;> rename_i same <;> rw [same]

def run [Monad m] (p : RetryPolicy) (submit : m Outcome) (wait : Nat → m Unit) : m Outcome :=
  p.runFrom submit wait 0

-- A request is served when it is valid now; what happens later is the attempts' affair.
def serve [Monad m] (p : RetryPolicy) (find : AccountLookup m) (submit : Movement → m Outcome)
    (wait : Nat → m Unit) (r : TransferRequest) : m Outcome := do
  match ← (r.validate find).run with
  | .error e => return .error e
  | .ok _ => p.run (submit r.toMovement) wait

end RetryPolicy
end DoubleEntry
