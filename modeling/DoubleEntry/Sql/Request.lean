import DoubleEntry.Sql.Accounts
import DoubleEntry.Sql.Migration

namespace DoubleEntry.Sql

-- How a transaction ends; one that is dropped is rolled back by the connection.
inductive Ending where
  | commit
  | rollback
  | drop
deriving DecidableEq, Repr

inductive TxRequest where
  | insertTransfer (source destination : AccountId) (amount : Int)
  | insertEntry (account : AccountId) (amount : Int)
  | getAccount (id : AccountId)
  | addToBalance (id : AccountId) (delta : Int)
deriving DecidableEq, Repr

inductive Request where
  | healthCheck
  | migrate
  | storeName
  | create (owner currency : String)
  | get (id : AccountId)
  | getByOwner (owner currency : String)
  | listByOwner (owner : String) (limit offset : Int)
  | list (limit offset : Int)
  | delete (id : AccountId)
  | getTransfer (id : TransferId)
  | getEntry (id : EntryId)
  | listEntries (account : AccountId)
  | listTransfers (source destination : AccountId)
  | transaction (calls : List TxRequest) (ending : Ending)
  | execute (movement : Movement)
  | transfer (request : TransferRequest) (maxRetries : Nat)
  | validate (request : TransferRequest)

inductive Response where
  | done
  | text (s : String)
  | flag (b : Bool)
  | account (row : Option Account)
  | accounts (rows : List Account)
  | transfer (row : Option Transfer)
  | transfers (rows : List Transfer)
  | entry (row : Option Entry)
  | entries (rows : List Entry)
  | outcome (o : Outcome)
  | validated (r : Except TransferError (Account × Account))
  | unsupportedCurrency (text : String)
  | storeError (e : StoreError)
  | migrateError (e : MigrateError)
  | transaction (calls : List Response) (ending : Response)

namespace Response

def of (wrap : α → Response) : Except StoreError α → Response
  | .ok a => wrap a
  | .error e => storeError e

end Response

variable {m : Type → Type} [Monad m] [Connection m] [Bookkeeping m]

def withCurrency (text : String) (work : Currency → m Response) : m Response :=
  match Currency.ofName? text with
  | some currency => work currency
  | none => return .unsupportedCurrency text

def TxRequest.run : TxRequest → m Response
  | insertTransfer source destination amount => do
    return .of (.transfer ∘ some) (← answer (.insertTransfer source destination amount))
  | insertEntry account amount => do
    return .of (.entry ∘ some) (← answer (.insertEntry account amount))
  | getAccount id => do
    return .of (.account ∘ some) (← Sql.getAccount id)
  | addToBalance id delta => do
    return .of (.account ∘ some) (← answer (.addToBalance id delta))

def Ending.run : Ending → m Response
  | commit => do
    return .of (fun () => .done) (← answer .commit)
  | rollback => do
    return .of (fun () => .done) (← answer .rollback)
  | drop => do
    Connection.abandon
    return .done

-- The time limit of transfers here; the server answers long before it.
def limit : Duration := .ofMillis 5000

def Request.run : Request → m Response
  | healthCheck => do
    return .of (fun _ => .done) (asStoreError (← Sql.execute .ping))
  | migrate => do
    match ← Sql.migrate with
    | .ok () => return .done
    | .error e => return .migrateError e
  | storeName => return .text Sql.storeName
  | create owner currency => withCurrency currency fun currency => do
    return .of (.account ∘ some) (← Accounts.create owner currency)
  | get id => do
    return .of .account (← Accounts.get id)
  | getByOwner owner currency => withCurrency currency fun currency => do
    return .of .account (← Accounts.getByOwner owner currency)
  | listByOwner owner limit offset => do
    return .of .accounts (← Accounts.listByOwner owner limit offset)
  | list limit offset => do
    return .of .accounts (← Accounts.list limit offset)
  | delete id => do
    return .of .flag (← Accounts.delete id)
  | getTransfer id => do
    return .of .transfer (← Sql.getTransfer id)
  | getEntry id => do
    return .of .entry (← Sql.getEntry id)
  | listEntries account => do
    return .of .entries (← Sql.listEntries account)
  | listTransfers source destination => do
    return .of .transfers (← Sql.listTransfers source destination)
  | transaction calls ending => do
    match ← answer .begin with
    | .error e => return .storeError e
    | .ok () =>
      let responses ← calls.mapM TxRequest.run
      return .transaction responses (← ending.run)
  | execute movement => do
    return .outcome (← transferOnce limit movement)
  | transfer request maxRetries => do
    return .outcome (← Accounts.transfer ⟨maxRetries,0⟩ limit request)
  | validate request => do
    return .validated (← Accounts.validate request)

def Request.runAll (url : String) (requests : List Request) :
    m (Except DriverError (List Response)) := do
  match ← Connection.dial url with
  | .error e => return .error e
  | .ok () => return .ok (← requests.mapM Request.run)

end DoubleEntry.Sql
