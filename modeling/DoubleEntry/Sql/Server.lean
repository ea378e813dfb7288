import DoubleEntry.Sql.Migration
import DoubleEntry.Sql.Store

namespace DoubleEntry.Sql

inductive Reply where
  | result (r : Result)
  | failure (sqlstate : Option String) (reason : String)
  | close
deriving DecidableEq, Repr, Inhabited

structure BoundaryReply where
  on : Statement
  nth : Nat
  reply : Reply
deriving DecidableEq, Repr

-- The connection: between transactions, inside one, or gone while a transaction was open.
-- Between transactions a lost connection is replaced without a word.
inductive Link where
  | idle
  | busy
  | lost
deriving DecidableEq, Repr, Inhabited

structure Server where
  -- whether a connection attempt gets through at all
  reachable : Bool := true
  replies : List Reply := []
  boundaries : List BoundaryReply := []
  history : History := {}
  link : Link := .idle
  sent : List Statement := []
deriving Repr, Inhabited

abbrev Session := StateM Server

namespace Server

def unreachable : DriverError := .inputOutput "Network is unreachable (os error 101)"

def connectionLost : DriverError :=
  .inputOutput "expected to read 5 bytes, got 0 bytes at EOF"

def note (v : Server) (s : Statement) : Server := { v with sent := v.sent ++ [s] }

def boundaryReply (v : Server) (s : Statement) : Reply :=
  let nth := v.sent.count s
  ((v.boundaries.find? fun b => b.on = s ∧ b.nth = nth).map (·.reply)).getD (.result (.affected 0))

def reply (v : Server) (s : Statement) : Reply × Server :=
  if s.isBoundary then (v.boundaryReply s,v)
  else match s with
    | .script _ => (.result (.affected 0),v)
    | _ =>
      match v.replies with
      | [] => (.result (.rows []),v)
      | r :: rest => (r,{ v with replies := rest })

def linkAfter (link : Link) : Statement → Link
  | .begin => .busy
  | .commit | .rollback => .idle
  | _ => link

-- On a lost connection nothing is sent any more.
def receive (s : Statement) (v : Server) : Except DriverError Result × Server :=
  if v.link = .lost then (.error connectionLost,v)
  else
    match (v.note s).reply s with
    | (.result r,v) => (.ok r,{ v with link := linkAfter v.link s })
    | (.failure sqlstate reason,v) => (.error (.database sqlstate reason),v)
    | (.close,v) =>
      (.error connectionLost,{ v with link := if v.link = .busy then .lost else .idle })

-- A transaction left open is rolled back before the connection is used again.
def leave (v : Server) : Server :=
  match v.link with
  | .busy => { v.note .rollback with link := .idle }
  | _ => { v with link := .idle }

-- A URL opens with a scheme: a letter, then letters, digits, plus, minus or points, and a colon.
def hasScheme (url : String) : Bool :=
  match url.toList with
  | [] => false
  | c :: rest =>
    let scheme := rest.takeWhile fun x => x.isAlphanum || x == '+' || x == '-' || x == '.'
    c.isAlpha && (rest.drop scheme.length).head? == some ':'

def dial (url : String) (v : Server) : Except DriverError Unit :=
  if !hasScheme url then .error (.configuration "relative URL without a base")
  else if !v.reachable then .error unreachable
  else .ok ()

instance : Connection Session where
  dial url := fun v => (v.dial url,v)
  send s := fun v => v.receive s
  abandon := modify leave

instance : Bookkeeping Session where
  history := do return (← get).history
  record version checksum := modify fun v =>
    { v with history := { v.history with applied := v.history.applied ++ [(version,checksum)] } }

end Server
end DoubleEntry.Sql
