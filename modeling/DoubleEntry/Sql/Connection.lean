import DoubleEntry.Sql.Row

namespace DoubleEntry.Sql

inductive Result where
  | rows (rows : List Columns)
  | affected (count : Nat)
deriving DecidableEq, Repr, Inhabited

class Connection (m : Type → Type) where
  dial : String → m (Except DriverError Unit)
  send : Statement → m (Except DriverError Result)
  abandon : m Unit

namespace Result

def toRows : Result → List Columns
  | rows rs => rs
  | affected _ => []

def count : Result → Nat
  | rows rs => rs.length
  | affected n => n

end Result

variable {m : Type → Type} [Monad m] [Connection m]

def execute (s : Statement) : m (Except DriverError Result) := Connection.send s

def fetchOptional (decode : Columns → Decoded α) (s : Statement) :
    m (Except DriverError (Option α)) := do
  match ← Connection.send s with
  | .error e => return .error e
  | .ok result =>
    match result.toRows with
    | [] => return .ok none
    | row :: _ => return (decode row).map some

def fetchOne (decode : Columns → Decoded α) (s : Statement) : m (Except DriverError α) := do
  match ← fetchOptional decode s with
  | .error e => return .error e
  | .ok none => return .error .rowNotFound
  | .ok (some row) => return .ok row

def fetchAll (decode : Columns → Decoded α) (s : Statement) :
    m (Except DriverError (List α)) := do
  match ← Connection.send s with
  | .error e => return .error e
  | .ok result => return result.toRows.mapM decode

-- Sends the end of a transaction. If that fails the transaction is abandoned.
def finish (s : Statement) : m (Except DriverError Unit) := do
  match ← Connection.send s with
  | .ok _ => return .ok ()
  | .error e =>
    Connection.abandon
    return .error e

def asStoreError (r : Except DriverError α) : Except StoreError α :=
  r.mapError DriverError.toStoreError

end DoubleEntry.Sql
