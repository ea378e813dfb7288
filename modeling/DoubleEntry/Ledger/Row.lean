import DoubleEntry.Account

namespace DoubleEntry

abbrev TxId := Nat

structure Row where
  account : Account
  holder : Option TxId := none
  queue : List TxId := []
deriving DecidableEq, Repr, Inhabited

namespace Row

def id (r : Row) : AccountId := r.account.id

def request (tx : TxId) (r : Row) : Row :=
  if r.holder = none then { r with holder := some tx } else { r with queue := r.queue ++ [tx] }

def leave (tx : TxId) (r : Row) : Row := { r with queue := r.queue.filter (· ≠ tx) }

def release (tx : TxId) (r : Row) : Row :=
  if r.holder = some tx then { r with holder := r.queue.head?, queue := r.queue.tail }
  else r.leave tx

@[simp] theorem account_request (tx : TxId) (r : Row) : (r.request tx).account = r.account := by
  unfold request
  split <;> rfl

@[simp] theorem account_leave (tx : TxId) (r : Row) : (r.leave tx).account = r.account := rfl

@[simp] theorem account_release (tx : TxId) (r : Row) : (r.release tx).account = r.account := by
  unfold release
  split <;> rfl

end Row
end DoubleEntry
