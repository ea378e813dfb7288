import DoubleEntry.Scenario.World

namespace DoubleEntry

inductive Command where
  | createAccount (owner currency : String) (balance : Int)
  | account (id : AccountId)
  | totalBalance
  | storeName
  | getTransfer (id : TransferId)
  | getEntry (id : EntryId)
  | listEntries (account : AccountId)
  | listTransfers (source destination : AccountId)
  | injectFault (point : FaultPoint) (error : StoreError)
  | setLockHold (delay : Option Duration)
  | setCommitDelay (delay : Option Duration)
  | begin (tx : String)
  | insertTransfer (tx : String) (source destination : AccountId) (amount : Int)
  | insertEntry (tx : String) (account : AccountId) (amount : Int)
  | getAccount (tx : String) (id : AccountId)
  | addToBalance (tx : String) (id : AccountId) (delta : Int) (wait : Nat)
  | locked (tx : String)
  | commit (tx : String)
  | rollback (tx : String)
  | drop (tx : String)
  | run (plan : JobPlan)
  | validate (request : TransferRequest) (failure : Option LookupFailure)
  | spawn (task : String) (plan : JobPlan)
  | sleep (ms : Nat)
  | poll (task : String)
  | abort (task : String)
  | join (task : String)

inductive Answer where
  | done
  | number (n : Int)
  | text (s : String)
  | account (row : Option Account)
  | transfer (row : Option Transfer)
  | entry (row : Option Entry)
  | entries (rows : List Entry)
  | transfers (rows : List Transfer)
  | ids (ids : List AccountId)
  | accounts (source destination : Account)
  | storeError (e : StoreError)
  | transferError (e : TransferError)
  | unsupportedCurrency (text : String)
  | blocked
  | panicked
  | report (outcome : Outcome) (calls : List Call) (elapsed : Nat)
  | cancelled
  | finished (b : Bool)
  | unknownTransaction
  | unknownTask

namespace Answer

def ofCall (wrap : α → Answer) : Option (Except StoreError α) → Answer
  | some (.ok row) => wrap row
  | some (.error e) => .storeError e
  | none => .blocked

def panics : Answer → Bool
  | panicked => true
  | _ => false

def ofJob (j : Job) : Answer :=
  match j.stage with
  | .finished outcome time => .report outcome j.calls (time - j.started)
  | _ => .cancelled

end Answer

namespace World

def session? (w : World) (name : String) : Option TxId := w.sessions.lookup name

def forget (w : World) (name : String) : World :=
  { w with sessions := w.sessions.filter (·.1 ≠ name) }

def task? (w : World) (name : String) : Option Nat := w.tasks.lookup name

-- A transaction of the same name is dropped only when the new one has been opened.
def openSession (w : World) (name : String) : World × Answer :=
  let tx := w.ledger.nextTx
  match w.ledger.begin with
  | (l,.error e) => ({ w with ledger := l },.storeError e)
  | (l,.ok ()) =>
    let l := (w.session? name).elim l l.discard
    ({ w.forget name with ledger := l, sessions := (name,tx) :: (w.forget name).sessions },.done)

def within (w : World) (name : String) (work : TxId → World × Answer) : World × Answer :=
  match w.session? name with
  | some tx => work tx
  | none => (w,.unknownTransaction)

def withTask (w : World) (name : String) (work : Nat → World × Answer) : World × Answer :=
  match w.task? name with
  | some i => work i
  | none => (w,.unknownTask)

def report (w : World) (i : Nat) : Answer := (w.jobs[i]?).elim .unknownTask Answer.ofJob

def abortJob (w : World) (i : Nat) : World :=
  match w.jobs[i]? with
  | none => w
  | some j =>
    let (l,j) := j.abort w.ledger
    { w with ledger := l, jobs := w.jobs.set i j }

def perform (w : World) : Command → World × Answer
  | .createAccount owner currency balance =>
    match Currency.ofName? currency with
    | none => (w,.unsupportedCurrency currency)
    | some currency =>
      let (l,account) := w.ledger.createAccount owner currency balance (.ofMillis w.clock)
      ({ w with ledger := l },.account (some account))
  | .account id => (w,.account (w.ledger.account? id))
  | .totalBalance => (w,w.ledger.totalBalance.elim .panicked .number)
  | .storeName => (w,.text "memory")
  | .getTransfer id => (w,.transfer (w.ledger.transfer? id))
  | .getEntry id => (w,.entry (w.ledger.entry? id))
  | .listEntries account => (w,.entries (w.ledger.entriesOf account))
  | .listTransfers source destination =>
    (w,.transfers (w.ledger.transfersBetween source destination))
  | .injectFault point error => ({ w with ledger := w.ledger.arm point error },.done)
  | .setLockHold delay => ({ w with ledger := { w.ledger with lockHold := delay } },.done)
  | .setCommitDelay delay => ({ w with ledger := { w.ledger with commitDelay := delay } },.done)
  | .begin name => w.openSession name
  | .insertTransfer name source destination amount => w.within name fun tx =>
    let (w,answer) := w.call tx (.insertTransfer source destination amount) none
    (w,.ofCall (.transfer ∘ some) answer)
  | .insertEntry name account amount => w.within name fun tx =>
    let (w,answer) := w.call tx (.insertEntry account amount) none
    (w,.ofCall (.entry ∘ some) answer)
  | .getAccount name id => w.within name fun tx =>
    (w,.ofCall (.account ∘ some) (some (w.ledger.getAccount tx id)))
  | .addToBalance name id delta wait => w.within name fun tx =>
    let (w,answer) := w.call tx (.addToBalance id delta) (some (w.clock + wait))
    (w,.ofCall (.account ∘ some) answer)
  | .locked name => w.within name fun tx => (w,.ids (w.ledger.locked tx))
  | .commit name => w.within name fun tx =>
    let (w,answer) := (w.forget name).call tx .commit none
    (w,.ofCall (fun _ => .done) answer)
  | .rollback name => w.within name fun tx =>
    let (w,answer) := (w.forget name).call tx .rollback none
    (w,.ofCall (fun _ => .done) answer)
  | .drop name => w.within name fun tx =>
    ({ w.forget name with ledger := w.ledger.discard tx },.done)
  | .run plan =>
    let (w,i) := w.launch plan
    let w := w.await i
    (w,w.report i)
  | .validate request failure =>
    (w,match w.ledger.validate request failure with
      | .ok (source,destination) => .accounts source destination
      | .error e => .transferError e)
  | .spawn name plan =>
    let (w,i) := w.launch plan
    ({ w with tasks := (name,i) :: w.tasks.filter (·.1 ≠ name) },.done)
  | .sleep ms => (w.sleep ms,.done)
  | .poll name => w.withTask name fun i => (w,.finished (w.settled i))
  | .abort name => w.withTask name fun i => (w.abortJob i,.done)
  | .join name => w.withTask name fun i =>
    let w := { w.await i with tasks := w.tasks.filter (·.1 ≠ name) }
    (w,w.report i)

def obey (w : World) (c : Command) : World × Answer :=
  let (w,answer) := w.perform c
  (w.settle,answer)

-- The answers to a scenario, each with the world it leaves. Nothing comes behind a panic.
def play (w : World) : List Command → List (Answer × World)
  | [] => []
  | c :: rest =>
    let (w,answer) := w.obey c
    (answer,w) :: if answer.panics then [] else w.play rest

end World
end DoubleEntry
