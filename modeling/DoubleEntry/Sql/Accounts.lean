import DoubleEntry.Sql.Store

namespace DoubleEntry.Sql.Accounts

variable {m : Type → Type} [Monad m] [Connection m]

def create (owner : String) (currency : Currency) : m (Except StoreError Account) := do
  return asStoreError (← fetchOne decodeAccount (.insertAccount owner currency))

def get (id : AccountId) : m (Except StoreError (Option Account)) := do
  return asStoreError (← fetchOptional decodeAccount (.selectAccount id))

def getByOwner (owner : String) (currency : Currency) : m (Except StoreError (Option Account)) := do
  return asStoreError (← fetchOptional decodeAccount (.selectAccountOf owner currency))

def listByOwner (owner : String) (limit offset : Int) : m (Except StoreError (List Account)) := do
  return asStoreError (← fetchAll decodeAccount (.selectAccountsOf owner limit offset))

def list (limit offset : Int) : m (Except StoreError (List Account)) := do
  return asStoreError (← fetchAll decodeAccount (.selectAccounts limit offset))

def delete (id : AccountId) : m (Except StoreError Bool) := do
  return asStoreError ((← execute (.deleteAccount id)).map fun result => 0 < result.count)

-- A whole request: validated by looking the accounts up here, then tried and tried again. Waits
-- are not measured; the server is what takes time.
def transfer (policy : RetryPolicy) (limit : Duration) (r : TransferRequest) : m Outcome :=
  policy.serve get (transferOnce limit) (fun _ => pure ()) r

def validate (r : TransferRequest) : m (Except TransferError (Account × Account)) :=
  (r.validate get).run

end DoubleEntry.Sql.Accounts
