namespace DoubleEntry

inductive ErrorKind where
  | validation
  | transient
  | constraint
  | fatal
  -- the work may or may not have been applied
  | indeterminate
deriving DecidableEq, Repr

namespace ErrorKind

def name : ErrorKind → String
  | validation => "Validation"
  | transient => "Transient"
  | constraint => "Constraint"
  | fatal => "Fatal"
  | indeterminate => "Indeterminate"

def retryable (k : ErrorKind) : Bool := k == transient

end ErrorKind

inductive StoreError where
  | notFound (reason : String)
  | transient (reason : String)
  -- the connection went away while a statement was in flight
  | connectionLost (reason : String)
  | constraint (reason : String)
  | unavailable (reason : String)
deriving DecidableEq, Repr

namespace StoreError

def name : StoreError → String
  | notFound _ => "NotFound"
  | transient _ => "Transient"
  | connectionLost _ => "ConnectionLost"
  | constraint _ => "Constraint"
  | unavailable _ => "Unavailable"

def message : StoreError → String
  | notFound reason => "Not found: " ++ reason
  | transient reason => "Transient conflict: " ++ reason
  | connectionLost reason => "Connection lost: " ++ reason
  | constraint reason => "Constraint violation: " ++ reason
  | unavailable reason => "Store unavailable: " ++ reason

def kind : StoreError → ErrorKind
  | notFound _ | constraint _ => .constraint
  | transient _ | connectionLost _ => .transient
  | unavailable _ => .fatal

def retryable (e : StoreError) : Bool := e.kind.retryable

end StoreError
end DoubleEntry
