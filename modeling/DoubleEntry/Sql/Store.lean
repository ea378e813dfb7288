import DoubleEntry.Sql.Connection
import DoubleEntry.Transfer.Retry

namespace DoubleEntry.Sql

variable {m : Type → Type} [Monad m] [Connection m]

def missingAccount (id : AccountId) : StoreError := .notFound ("account " ++ toString id)

def present (id : AccountId) (found : Except DriverError (Option Account)) :
    Except StoreError Account :=
  match asStoreError found with
  | .error e => .error e
  | .ok none => .error (missingAccount id)
  | .ok (some account) => .ok account

def getAccount (id : AccountId) : m (Except StoreError Account) := do
  return present id (← fetchOptional decodeAccount (.selectAccount id))

def answer : (call : Call) → m (Except StoreError call.Row)
  | .begin => do
    return asStoreError ((← execute .begin).map fun _ => ())
  | .insertTransfer source destination amount => do
    return asStoreError (← fetchOne decodeTransfer (.insertTransfer source destination amount))
  | .insertEntry account amount => do
    return asStoreError (← fetchOne decodeEntry (.insertEntry account amount))
  | .addToBalance id delta => do
    return present id (← fetchOptional decodeAccount (.addToBalance id delta))
  | .commit => do
    return asStoreError (← finish .commit)
  | .rollback => do
    return asStoreError (← finish .rollback)

def getTransfer (id : TransferId) : m (Except StoreError (Option Transfer)) := do
  return asStoreError (← fetchOptional decodeTransfer (.selectTransfer id))

def getEntry (id : EntryId) : m (Except StoreError (Option Entry)) := do
  return asStoreError (← fetchOptional decodeEntry (.selectEntry id))

def listEntries (account : AccountId) : m (Except StoreError (List Entry)) := do
  return asStoreError (← fetchAll decodeEntry (.selectEntries account))

def listTransfers (source destination : AccountId) : m (Except StoreError (List Transfer)) := do
  return asStoreError (← fetchAll decodeTransfer (.selectTransfers source destination))

def storeName : String := "postgres"

def transferOnce (limit : Duration) (movement : Movement) : m Outcome :=
  (Phase.start movement).drive movement limit answer

end DoubleEntry.Sql
