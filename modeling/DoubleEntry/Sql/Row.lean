import DoubleEntry.Sql.Statement
import DoubleEntry.Store.DriverError

namespace DoubleEntry.Sql

abbrev Columns := List Value

abbrev Decoded (α : Type) := Except DriverError α

def unexpectedNull (column : String) : DriverError :=
  .columnDecode ("\"" ++ column ++ "\"") "unexpected null; try decoding as an `Option`"

def unexpectedType (column : String) : DriverError :=
  .columnDecode ("\"" ++ column ++ "\"") "mismatched types"

-- A column that is missing counts as null.
def column (row : Columns) (i : Nat) : Value := row.getD i .null

def intColumn (name : String) : Value → Decoded Int
  | .int n => .ok n
  | .null => .error (unexpectedNull name)
  | .text _ => .error (unexpectedType name)

def textColumn (name : String) : Value → Decoded String
  | .text s => .ok s
  | .null => .error (unexpectedNull name)
  | .int _ => .error (unexpectedType name)

def timeColumn (name : String) (v : Value) : Decoded Instant := do
  return .ofMicros (← intColumn name v)

def currencyColumn (name : String) (v : Value) : Decoded Currency := do
  match Currency.ofName? (← textColumn name v) with
  | some currency => return currency
  | none => throw (.columnDecode name "unprintable error: (unprintable type)")

def decodeAccount (row : Columns) : Decoded Account := do
  return {
    id := ← intColumn "id" (column row 0)
    owner := ← textColumn "owner" (column row 1)
    currency := ← currencyColumn "currency" (column row 2)
    balance := ← intColumn "balance" (column row 3)
    createdAt := ← timeColumn "created_at" (column row 4) }

def decodeEntry (row : Columns) : Decoded Entry := do
  return {
    id := ← intColumn "id" (column row 0)
    account := ← intColumn "account_id" (column row 1)
    amount := ← intColumn "amount" (column row 2)
    createdAt := ← timeColumn "created_at" (column row 3) }

def decodeTransfer (row : Columns) : Decoded Transfer := do
  return {
    id := ← intColumn "id" (column row 0)
    source := ← intColumn "from_account_id" (column row 1)
    destination := ← intColumn "to_account_id" (column row 2)
    amount := ← intColumn "amount" (column row 3)
    createdAt := ← timeColumn "created_at" (column row 4) }

end DoubleEntry.Sql
