import DoubleEntry.Transfer.Error

namespace DoubleEntry

-- `amount` minor units go from `source` to `destination`.
structure Movement where
  source : AccountId
  destination : AccountId
  amount : Int
deriving DecidableEq, Repr, Inhabited

-- With an owner, the source account has to belong to that owner.
structure TransferRequest extends Movement where
  owner : Option String := none
deriving DecidableEq, Repr, Inhabited

structure Update where
  account : AccountId
  delta : Int
deriving DecidableEq, Repr, Inhabited

namespace Movement

def check (m : Movement) : Except TransferError Unit :=
  if m.source = m.destination then .error (.sameAccount m.source)
  else if m.amount ≤ 0 then .error (.invalidAmount m.amount)
  else .ok ()

-- The smaller account id goes first, whichever side it is on. Everyone who follows this order
-- waits only for accounts above those already held.
def lockOrder (a b : Update) : Update × Update := if a.account ≤ b.account then (a,b) else (b,a)

def updates (m : Movement) : Update × Update :=
  lockOrder ⟨m.source,-m.amount⟩ ⟨m.destination,m.amount⟩

theorem check_eq_ok {m : Movement} : m.check = .ok () ↔ m.source ≠ m.destination ∧ 0 < m.amount := by
  unfold check
  by_cases same : m.source = m.destination
  · simp [same]
  · by_cases positive : 0 < m.amount
    · simp [same,positive]
    · simp [same,positive,Int.not_lt.mp positive]

end Movement
end DoubleEntry
