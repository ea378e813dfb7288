import DoubleEntry.Store.Error

namespace DoubleEntry

inductive DriverError where
  | database (sqlstate : Option String) (reason : String)
  | inputOutput (reason : String)
  | rowNotFound
  | tls (reason : String)
  | configuration (reason : String)
  | protocol (reason : String)
  | decode (reason : String)
  | columnDecode (column reason : String)
  | columnNotFound (column : String)
  | typeNotFound (type : String)
  | poolTimedOut
  | poolClosed
  | workerCrashed
  -- any other failure, known by its wording and by that of the failure underneath
  | other (wording : String) (underneath : Option String)
deriving DecidableEq, Repr

namespace DriverError

def message : DriverError → String
  | database _ reason => "error returned from database: " ++ reason
  | inputOutput reason => "error communicating with database: " ++ reason
  | rowNotFound => "no rows returned by a query that expected to return at least one row"
  | tls reason => "error occurred while attempting to establish a TLS connection: " ++ reason
  | configuration reason => "error with configuration: " ++ reason
  | protocol reason => "encountered unexpected or invalid data: " ++ reason
  | decode reason => "error occurred while decoding: " ++ reason
  | columnDecode column reason => "error occurred while decoding column " ++ column ++ ": " ++ reason
  | columnNotFound column => "no column found for name: " ++ column
  | typeNotFound type => "type named " ++ type ++ " not found"
  | poolTimedOut => "pool timed out while waiting for an open connection"
  | poolClosed => "attempted to acquire a connection on a closed pool"
  | workerCrashed => "attempted to communicate with a crashed background worker"
  | other wording _ => wording

def cause : DriverError → Option String
  | database _ reason | inputOutput reason | tls reason | configuration reason | decode reason
  | columnDecode _ reason => some reason
  | other _ underneath => underneath
  | _ => none

-- serialization failure, deadlock detected, lock not available, query cancelled
def conflictStates : List String := ["40001","40P01","55P03","57014"]

-- shutdown by an administrator, after a crash, and cannot connect now
def shutdownStates : List String := ["57P01","57P02","57P03"]

-- The two characters that open a code name its class: 23 is integrity, 08 the connection.
def stateClass (sqlstate : String) : String := String.ofList (sqlstate.toList.take 2)

-- What a server's error code says about the statement; `22003` is a number out of range.
def classify (sqlstate : Option String) (reason : String) : StoreError :=
  match sqlstate with
  | none => .unavailable reason
  | some code =>
    if code ∈ conflictStates then .transient reason
    else if code ∈ shutdownStates then .unavailable reason
    else if stateClass code = "23" ∨ code = "22003" then .constraint reason
    else if stateClass code = "08" then .connectionLost reason
    else .unavailable reason

def toStoreError (e : DriverError) : StoreError :=
  match e with
  | rowNotFound => .notFound e.message
  | database sqlstate _ => classify sqlstate e.message
  | inputOutput _ => .connectionLost e.message
  | _ => .unavailable e.message

end DriverError
end DoubleEntry
