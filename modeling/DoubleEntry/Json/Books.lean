import DoubleEntry.Bigint
import DoubleEntry.Json.Reader
import DoubleEntry.Transfer.Request

namespace DoubleEntry

namespace Json

def members (keys : List String) : Json → Option (List (Content × Json))
  | object fields => if fields.all (·.1.isSome) then some fields else none
  | array items =>
    if items.length ≤ keys.length then some ((keys.map fun k => some k.toList).zip items)
    else none
  | _ => none

def occurrences (key : String) (fields : List (Content × Json)) : List Json :=
  (fields.filter (·.1 == some key.toList)).map Prod.snd

def required (key : String) (fields : List (Content × Json)) : Option Json :=
  match occurrences key fields with
  | [v] => some v
  | _ => none

def optional (key : String) (fields : List (Content × Json)) : Option Json :=
  match occurrences key fields with
  | [] => some null
  | [v] => some v
  | _ => none

def toInt? : Json → Option Int
  | number n => if Bigint.Fits n then some n else none
  | _ => none

def toText? : Json → Option String
  | string (some s) => some (String.ofList s)
  | _ => none

def toTextOrNull? : Json → Option (Option String)
  | null => some none
  | v => v.toText?.map some

def toInstant? : Json → Option Instant
  | string (some s) => Instant.read s
  | _ => none

def currencyNamed? (s : List Char) : Option Currency :=
  Currency.all.find? fun c => c.name.toList == s

-- A currency is its name, or an object with that name as its one key and null as its value.
def toCurrency? : Json → Option Currency
  | string (some s) => currencyNamed? s
  | object [(some key,null)] => currencyNamed? key
  | _ => none

def ofInstant (t : Instant) : Json := string (some t.print)

end Json

open Json

def Currency.toJson (c : Currency) : Json := .text c.name

namespace Account

def keys : List String := ["id","owner","currency","balance","created_at"]

def toJson (a : Account) : Json := .record
  [("id",.number a.id),("owner",.text a.owner),("currency",a.currency.toJson),
    ("balance",.number a.balance),("created_at",ofInstant a.createdAt)]

def ofJson? (v : Json) : Option Account := do
  let fs ← v.members keys
  return {
    id := ← (← required "id" fs).toInt?
    owner := ← (← required "owner" fs).toText?
    currency := ← (← required "currency" fs).toCurrency?
    balance := ← (← required "balance" fs).toInt?
    createdAt := ← (← required "created_at" fs).toInstant? }

end Account

namespace Entry

def keys : List String := ["id","account_id","amount","created_at"]

def toJson (e : Entry) : Json := .record
  [("id",.number e.id),("account_id",.number e.account),("amount",.number e.amount),
    ("created_at",ofInstant e.createdAt)]

def ofJson? (v : Json) : Option Entry := do
  let fs ← v.members keys
  return {
    id := ← (← required "id" fs).toInt?
    account := ← (← required "account_id" fs).toInt?
    amount := ← (← required "amount" fs).toInt?
    createdAt := ← (← required "created_at" fs).toInstant? }

end Entry

namespace Transfer

def keys : List String := ["id","from_account_id","to_account_id","amount","created_at"]

def toJson (t : Transfer) : Json := .record
  [("id",.number t.id),("from_account_id",.number t.source),
    ("to_account_id",.number t.destination),("amount",.number t.amount),
    ("created_at",ofInstant t.createdAt)]

def ofJson? (v : Json) : Option Transfer := do
  let fs ← v.members keys
  return {
    id := ← (← required "id" fs).toInt?
    source := ← (← required "from_account_id" fs).toInt?
    destination := ← (← required "to_account_id" fs).toInt?
    amount := ← (← required "amount" fs).toInt?
    createdAt := ← (← required "created_at" fs).toInstant? }

end Transfer

namespace Receipt

def keys : List String := ["transfer","from_entry","to_entry","from_account","to_account"]

def toJson (r : Receipt) : Json := .record
  [("transfer",r.transfer.toJson),("from_entry",r.debit.toJson),("to_entry",r.credit.toJson),
    ("from_account",r.source.toJson),("to_account",r.destination.toJson)]

def ofJson? (v : Json) : Option Receipt := do
  let fs ← v.members keys
  return {
    transfer := ← Transfer.ofJson? (← required "transfer" fs)
    debit := ← Entry.ofJson? (← required "from_entry" fs)
    credit := ← Entry.ofJson? (← required "to_entry" fs)
    source := ← Account.ofJson? (← required "from_account" fs)
    destination := ← Account.ofJson? (← required "to_account" fs) }

end Receipt

namespace TransferRequest

def keys : List String := ["from_account_id","to_account_id","amount","owner"]

def toJson (r : TransferRequest) : Json := .record
  [("from_account_id",.number r.source),("to_account_id",.number r.destination),
    ("amount",.number r.amount),("owner",r.owner.elim .null .text)]

def ofJson? (v : Json) : Option TransferRequest := do
  let fs ← v.members keys
  return {
    source := ← (← required "from_account_id" fs).toInt?
    destination := ← (← required "to_account_id" fs).toInt?
    amount := ← (← required "amount" fs).toInt?
    owner := ← (← optional "owner" fs).toTextOrNull? }

end TransferRequest
end DoubleEntry
