import DoubleEntry.Clock.Rest
import DoubleEntry.Ledger.Transaction
import DoubleEntry.Transfer.Call

namespace DoubleEntry

inductive Wait where
  | row (account : AccountId)
  | until (time : Nat)
deriving DecidableEq, Repr

inductive Progress (α : Type) where
  | waiting (wait : Wait)
  | answered (answer : Except StoreError α)
deriving Repr

namespace Ledger

def hold (l : Ledger) (now : Nat) (tx : TxId) (id : AccountId) (delta : Int) :
    Ledger × Progress Account :=
  match l.lockHold with
  | some delay => (l,.waiting (.until (restUntil now delay.ticks)))
  | none =>
    let (l,answer) := l.applyDelta tx id delta
    (l,.answered answer)

def start (l : Ledger) (now : Nat) (tx : TxId) : (call : Call) → Ledger × Progress call.Row
  | .begin =>
    let (l,answer) := l.begin
    (l,.answered answer)
  | .insertTransfer source destination amount =>
    let (l,answer) := l.insertTransfer tx source destination amount (.ofMillis now)
    (l,.answered answer)
  | .insertEntry account amount =>
    let (l,answer) := l.insertEntry tx account amount (.ofMillis now)
    (l,.answered answer)
  | .addToBalance id delta =>
    match l.requestRow tx id with
    | (l,.error e) => (l,.answered (.error e))
    | (l,.ok .held) =>
      let (l,answer) := l.applyDelta tx id delta
      (l,.answered answer)
    | (l,.ok .taken) => l.hold now tx id delta
    | (l,.ok .queued) => (l,.waiting (.row id))
  | .commit =>
    match l.commitDelay with
    | some delay => (l,.waiting (.until (restUntil now delay.ticks)))
    | none =>
      let (l,answer) := l.commit tx
      (l,.answered answer)
  | .rollback => (l.rollback tx,.answered (.ok ()))

-- Goes on with a call that has been waiting; `none` if it must wait longer.
def resume (l : Ledger) (now : Nat) (tx : TxId) :
    (call : Call) → Wait → Option (Ledger × Progress call.Row)
  | .addToBalance id delta, .row _ =>
    if l.holds tx id then some (l.hold now tx id delta) else none
  | .addToBalance id delta, .until time =>
    if time ≤ now then
      let (l,answer) := l.applyDelta tx id delta
      some (l,.answered answer)
    else none
  | .commit, .until time =>
    if time ≤ now then
      let (l,answer) := l.commit tx
      some (l,.answered answer)
    else none
  | _, _ => none

-- The caller stops waiting. A commit takes its transaction with it.
def giveUp (l : Ledger) (tx : TxId) : Call → Ledger
  | .commit => l.discard tx
  | _ => l.leaveQueues tx

end Ledger
end DoubleEntry
