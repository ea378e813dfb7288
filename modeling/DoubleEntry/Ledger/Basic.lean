import DoubleEntry.Bigint
import DoubleEntry.Clock.Duration
import DoubleEntry.Ledger.Row
import DoubleEntry.Store.Error

namespace DoubleEntry

-- Where an armed failure goes off. An acknowledgement fails after its commit was applied.
inductive FaultPoint where
  | begin
  | insertTransfer
  | insertEntry
  | addToBalance
  | commit
  | commitAcknowledgement
deriving DecidableEq, Repr

namespace FaultPoint

def all : List FaultPoint :=
  [begin,insertTransfer,insertEntry,addToBalance,commit,commitAcknowledgement]

def name : FaultPoint → String
  | begin => "Begin"
  | insertTransfer => "InsertTransfer"
  | insertEntry => "InsertEntry"
  | addToBalance => "AddToBalance"
  | commit => "Commit"
  | commitAcknowledgement => "CommitAcknowledgement"

def ofName? (text : String) : Option FaultPoint := all.find? (·.name == text)

end FaultPoint

structure Tx where
  id : TxId
  accounts : List Account := []
  entries : List Entry := []
  transfers : List Transfer := []
deriving DecidableEq, Repr, Inhabited

namespace Tx

def account? (t : Tx) (id : AccountId) : Option Account := t.accounts.find? (·.id = id)

def put (t : Tx) (a : Account) : Tx :=
  { t with accounts := a :: t.accounts.filter (·.id ≠ a.id) }

theorem account?_put (t : Tx) (a : Account) (id : AccountId) :
    (t.put a).account? id = if a.id = id then some a else t.account? id := by
  unfold put account?
  by_cases same : a.id = id
  · simp [same]
  · rw [List.find?_cons_of_neg (by simpa using same),List.find?_filter,if_neg same]
    congr 1
    funext b
    by_cases h : b.id = id <;> simp [h]
    exact fun e => same e.symm

end Tx

-- Entries and transfers stand in the order of their commits. Account ids are the positions of
-- the rows, so they need no sequence of their own.
structure Ledger where
  rows : List Row := []
  entries : List Entry := []
  transfers : List Transfer := []
  live : List Tx := []
  faults : List (FaultPoint × StoreError) := []
  lockHold : Option Duration := none
  commitDelay : Option Duration := none
  entrySeq : Nat := 0
  transferSeq : Nat := 0
  begun : Nat := 0
  committed : Nat := 0
  rolledBack : Nat := 0
deriving DecidableEq, Repr, Inhabited

namespace Ledger

def row? (l : Ledger) (id : AccountId) : Option Row := l.rows.find? (·.id = id)

def account? (l : Ledger) (id : AccountId) : Option Account := (l.row? id).map Row.account

def tx? (l : Ledger) (tx : TxId) : Option Tx := l.live.find? (·.id = tx)

def holds (l : Ledger) (tx : TxId) (id : AccountId) : Bool :=
  (l.row? id).any (·.holder = some tx)

def locked (l : Ledger) (tx : TxId) : List AccountId :=
  (l.rows.filter (·.holder = some tx)).map Row.id

def balances (l : Ledger) : List (AccountId × Int) :=
  l.rows.map fun r => (r.id,r.account.balance)

-- The sum of the balances, added one after another as the accounts are visited; none where an
-- addition leaves the 64 bits and the program stops.
def totalOf (visited : List Account) : Option Int :=
  (visited.map Account.balance).foldlM Bigint.add? 0

-- The accounts are a hash map to the program and may be visited in any order, here in that of ids.
def totalBalance (l : Ledger) : Option Int := totalOf (l.rows.map Row.account)

def transfer? (l : Ledger) (id : TransferId) : Option Transfer := l.transfers.find? (·.id = id)

def entry? (l : Ledger) (id : EntryId) : Option Entry := l.entries.find? (·.id = id)

def entriesOf (l : Ledger) (account : AccountId) : List Entry :=
  (l.entries.filter (·.account = account)).mergeSort (·.id ≤ ·.id)

def transfersBetween (l : Ledger) (source destination : AccountId) : List Transfer :=
  (l.transfers.filter fun t => t.source = source ∧ t.destination = destination).mergeSort
    (·.id ≤ ·.id)

def fault? (l : Ledger) (p : FaultPoint) : Option StoreError :=
  (l.faults.find? (·.1 = p)).map Prod.snd

def disarm (l : Ledger) (p : FaultPoint) : Ledger :=
  { l with faults := l.faults.filter (·.1 ≠ p) }

-- The next call that reaches `p` fails with `e`, once.
def arm (l : Ledger) (p : FaultPoint) (e : StoreError) : Ledger :=
  { l with faults := (p,e) :: l.faults.filter (·.1 ≠ p) }

def updateRow (l : Ledger) (id : AccountId) (f : Row → Row) : Ledger :=
  { l with rows := l.rows.map fun r => if r.id = id then f r else r }

def updateTx (l : Ledger) (tx : TxId) (f : Tx → Tx) : Ledger :=
  { l with live := l.live.map fun t => if t.id = tx then f t else t }

def nextTx (l : Ledger) : TxId := l.begun

def createAccount (l : Ledger) (owner : String) (currency : Currency) (balance : Int)
    (now : Instant) : Ledger × Account :=
  let account : Account := ⟨l.rows.length + 1,owner,currency,balance,now⟩
  ({ l with rows := l.rows ++ [{ account := account }] },account)

end Ledger
end DoubleEntry
