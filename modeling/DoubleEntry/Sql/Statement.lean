import DoubleEntry.Account

namespace DoubleEntry.Sql

-- A column or a parameter. A time is the microseconds since 1970.
inductive Value where
  | null
  | int (n : Int)
  | text (s : String)
deriving DecidableEq, Repr, Inhabited

inductive Statement where
  | begin
  | commit
  | rollback
  | ping
  | script (text : String)
  | insertAccount (owner : String) (currency : Currency)
  | selectAccount (id : AccountId)
  | selectAccountOf (owner : String) (currency : Currency)
  | selectAccountsOf (owner : String) (limit offset : Int)
  | selectAccounts (limit offset : Int)
  | deleteAccount (id : AccountId)
  | insertTransfer (source destination : AccountId) (amount : Int)
  | insertEntry (account : AccountId) (amount : Int)
  | addToBalance (id : AccountId) (delta : Int)
  | selectTransfer (id : TransferId)
  | selectEntry (id : EntryId)
  | selectEntries (account : AccountId)
  | selectTransfers (source destination : AccountId)
deriving DecidableEq, Repr, Inhabited

def accountColumns : String := "id, owner, currency, balance, created_at"
def entryColumns : String := "id, account_id, amount, created_at"
def transferColumns : String := "id, from_account_id, to_account_id, amount, created_at"

namespace Statement

def sql : Statement → String
  | begin => "BEGIN"
  | commit => "COMMIT"
  | rollback => "ROLLBACK"
  | ping => "SELECT 1"
  | script text => text
  | insertAccount _ _ =>
    "INSERT INTO accounts (owner, currency, balance) VALUES ($1, $2, 0) RETURNING " ++ accountColumns
  | selectAccount _ => "SELECT " ++ accountColumns ++ " FROM accounts WHERE id = $1"
  | selectAccountOf _ _ =>
    "SELECT " ++ accountColumns ++ " FROM accounts WHERE owner = $1 AND currency = $2"
  | selectAccountsOf _ _ _ =>
    "SELECT " ++ accountColumns ++ " FROM accounts WHERE owner = $1 ORDER BY id LIMIT $2 OFFSET $3"
  | selectAccounts _ _ =>
    "SELECT " ++ accountColumns ++ " FROM accounts ORDER BY id LIMIT $1 OFFSET $2"
  | deleteAccount _ => "DELETE FROM accounts WHERE id = $1"
  | insertTransfer _ _ _ =>
    "INSERT INTO transfers (from_account_id, to_account_id, amount) VALUES ($1, $2, $3) RETURNING " ++
      transferColumns
  | insertEntry _ _ =>
    "INSERT INTO entries (account_id, amount) VALUES ($1, $2) RETURNING " ++ entryColumns
  | addToBalance _ _ =>
    "UPDATE accounts SET balance = balance + $2 WHERE id = $1 RETURNING " ++ accountColumns
  | selectTransfer _ => "SELECT " ++ transferColumns ++ " FROM transfers WHERE id = $1"
  | selectEntry _ => "SELECT " ++ entryColumns ++ " FROM entries WHERE id = $1"
  | selectEntries _ => "SELECT " ++ entryColumns ++ " FROM entries WHERE account_id = $1 ORDER BY id"
  | selectTransfers _ _ =>
    "SELECT " ++ transferColumns ++
      " FROM transfers WHERE from_account_id = $1 AND to_account_id = $2 ORDER BY id"

def params : Statement → List Value
  | begin | commit | rollback | ping | script _ => []
  | insertAccount owner currency | selectAccountOf owner currency =>
    [.text owner,.text currency.name]
  | selectAccount id | deleteAccount id | selectTransfer id | selectEntry id | selectEntries id =>
    [.int id]
  | selectAccountsOf owner limit offset => [.text owner,.int limit,.int offset]
  | selectAccounts limit offset => [.int limit,.int offset]
  | insertTransfer source destination amount => [.int source,.int destination,.int amount]
  | insertEntry account amount => [.int account,.int amount]
  | addToBalance id delta => [.int id,.int delta]
  | selectTransfers source destination => [.int source,.int destination]

def isBoundary : Statement → Bool
  | begin | commit | rollback => true
  | _ => false

end Statement
end DoubleEntry.Sql
