import DoubleEntry.Ledger.Basic

namespace DoubleEntry.Ledger

inductive Grant where
  | held
  | taken
  | queued
deriving DecidableEq, Repr

def missingAccount (id : AccountId) : StoreError := .notFound ("account " ++ toString id)

-- An armed failure is used up before anything else is looked at.
def guarded (l : Ledger) (p : FaultPoint) (work : Ledger × Except StoreError α) :
    Ledger × Except StoreError α :=
  match l.fault? p with
  | some e => (l.disarm p,.error e)
  | none => work

def begin (l : Ledger) : Ledger × Except StoreError Unit :=
  l.guarded .begin
    ({ l with begun := l.begun + 1, live := l.live ++ [{ id := l.nextTx }] },.ok ())

-- The rows may reference only accounts that are committed.
def insertTransfer (l : Ledger) (tx : TxId) (source destination : AccountId) (amount : Int)
    (now : Instant) : Ledger × Except StoreError Transfer :=
  l.guarded .insertTransfer <|
    if amount ≤ 0 ∨ source = destination then
      (l,.error (.constraint ("transfers check violated: from=" ++ toString source ++ " to=" ++
        toString destination ++ " amount=" ++ toString amount)))
    else match [source,destination].find? fun id => (l.account? id).isNone with
      | some id =>
        (l,.error (.constraint ("transfers references missing account " ++ toString id)))
      | none =>
        let row : Transfer := ⟨l.transferSeq + 1,source,destination,amount,now⟩
        ({ l.updateTx tx fun t => { t with transfers := t.transfers ++ [row] } with
            transferSeq := l.transferSeq + 1 },.ok row)

def insertEntry (l : Ledger) (tx : TxId) (account : AccountId) (amount : Int) (now : Instant) :
    Ledger × Except StoreError Entry :=
  l.guarded .insertEntry <|
    if (l.account? account).isNone then
      (l,.error (.constraint ("entries references missing account " ++ toString account)))
    else
      let row : Entry := ⟨l.entrySeq + 1,account,amount,now⟩
      ({ l.updateTx tx fun t => { t with entries := t.entries ++ [row] } with
          entrySeq := l.entrySeq + 1 },.ok row)

def version? (l : Ledger) (tx : TxId) (id : AccountId) : Option Account :=
  ((l.tx? tx).bind (·.account? id)).or (l.account? id)

def getAccount (l : Ledger) (tx : TxId) (id : AccountId) : Except StoreError Account :=
  match l.version? tx id with
  | some account => .ok account
  | none => .error (missingAccount id)

def requestRow (l : Ledger) (tx : TxId) (id : AccountId) : Ledger × Except StoreError Grant :=
  l.guarded .addToBalance <|
    match l.row? id with
    | none => (l,.error (missingAccount id))
    | some row =>
      if row.holder = some tx then (l,.ok .held)
      else (l.updateRow id (Row.request tx),.ok (if row.holder = none then .taken else .queued))

def applyDelta (l : Ledger) (tx : TxId) (id : AccountId) (delta : Int) :
    Ledger × Except StoreError Account :=
  match l.version? tx id with
  | none => (l,.error (missingAccount id))
  | some account =>
    match Bigint.add? account.balance delta with
    | none =>
      (l,.error (.constraint ("balance out of range for account " ++ toString id)))
    | some balance =>
      let account := { account with balance := balance }
      (l.updateTx tx (·.put account),.ok account)

def leaveQueues (l : Ledger) (tx : TxId) : Ledger := { l with rows := l.rows.map (Row.leave tx) }

def discard (l : Ledger) (tx : TxId) : Ledger :=
  { l with live := l.live.filter (·.id ≠ tx), rows := l.rows.map (Row.release tx) }

def rollback (l : Ledger) (tx : TxId) : Ledger :=
  { l.discard tx with rolledBack := l.rolledBack + 1 }

-- All writes of the transaction become visible in one step.
def apply (l : Ledger) (t : Tx) : Ledger :=
  { l with
    rows := l.rows.map fun r => { r with account := (t.account? r.id).getD r.account }
    entries := l.entries ++ t.entries
    transfers := l.transfers ++ t.transfers
    committed := l.committed + 1 }

-- A commit that fails by an armed failure is a rollback; one whose acknowledgement fails is not.
def commit (l : Ledger) (tx : TxId) : Ledger × Except StoreError Unit :=
  match l.fault? .commit with
  | some e => ((l.disarm .commit).rollback tx,.error e)
  | none =>
    let l := (match l.tx? tx with
      | some t => l.apply t
      | none => l).discard tx
    l.guarded .commitAcknowledgement (l,.ok ())

end DoubleEntry.Ledger
