import DoubleEntry.Account
import DoubleEntry.Clock.Duration
import DoubleEntry.Decimal
import DoubleEntry.Store.Error

namespace DoubleEntry

inductive TransferStep where
  | begin
  | insertTransfer
  | insertDebitEntry
  | insertCreditEntry
  | updateBalance (account : AccountId)
  | commit
deriving DecidableEq, Repr

def TransferStep.text : TransferStep → String
  | begin => "begin transaction"
  | insertTransfer => "insert transfer"
  | insertDebitEntry => "insert debit entry"
  | insertCreditEntry => "insert credit entry"
  | updateBalance account => "update balance of account " ++ toString account
  | commit => "commit"

inductive TransferError where
  | sameAccount (account : AccountId)
  | invalidAmount (amount : Int)
  | accountNotFound (account : AccountId)
  | currencyMismatch (source destination : Currency)
  | notOwner (account : AccountId) (owner : String)
  | lookup (cause : StoreError)
  | store (step : TransferStep) (cause : StoreError)
  | timeout (limit : Duration)
  | commitTimeout (limit : Duration)
deriving DecidableEq, Repr

namespace TransferError

def name : TransferError → String
  | sameAccount _ => "SameAccount"
  | invalidAmount _ => "InvalidAmount"
  | accountNotFound _ => "AccountNotFound"
  | currencyMismatch _ _ => "CurrencyMismatch"
  | notOwner _ _ => "NotOwner"
  | lookup _ => "Lookup"
  | store _ _ => "Store"
  | timeout _ => "Timeout"
  | commitTimeout _ => "CommitTimeout"

def message : TransferError → String
  | sameAccount account =>
    "Source and destination account cannot be the same (account " ++ toString account ++ ")"
  | invalidAmount amount => "Amount must be greater than zero, got " ++ toString amount
  | accountNotFound account => "Account not found: " ++ toString account
  | currencyMismatch source destination =>
    "Currency mismatch: source is " ++ source.name ++ ", destination is " ++ destination.name
  | notOwner account owner => "Account " ++ toString account ++ " does not belong to " ++ owner
  | lookup cause => "Account lookup failed: " ++ cause.message
  | store step cause => "Transfer failed at " ++ step.text ++ ": " ++ cause.message
  | timeout limit => "Transfer transaction exceeded " ++ limit.text ++ " and was rolled back"
  | commitTimeout limit =>
    "Commit not acknowledged within " ++ limit.text ++ "; transfer may or may not be durable"

-- A commit whose connection went away may have been made durable before that, so its outcome is
-- unknown; the same failure at any other step is only a conflict.
def kind : TransferError → ErrorKind
  | sameAccount _ | invalidAmount _ | accountNotFound _ | currencyMismatch _ _ | notOwner _ _ =>
    .validation
  | store .commit (.connectionLost _) => .indeterminate
  | lookup cause | store _ cause => cause.kind
  | timeout _ => .transient
  | commitTimeout _ => .indeterminate

def retryable (e : TransferError) : Bool := e.kind.retryable

def step : TransferError → Option TransferStep
  | store step _ => some step
  | _ => none

def cause : TransferError → Option StoreError
  | lookup cause | store _ cause => some cause
  | _ => none

def storeCode : ErrorKind → String
  | .transient => "CONFLICT"
  | .constraint | .validation => "CONSTRAINT_VIOLATION"
  | .fatal => "DATABASE_ERROR"
  | .indeterminate => "OUTCOME_UNKNOWN"

def storeStatus : ErrorKind → Nat
  | .transient => 409
  | .constraint | .validation => 422
  | .fatal => 500
  | .indeterminate => 504

def code (e : TransferError) : String :=
  match e with
  | sameAccount _ => "SAME_ACCOUNT"
  | invalidAmount _ => "INVALID_AMOUNT"
  | accountNotFound _ => "ACCOUNT_NOT_FOUND"
  | currencyMismatch _ _ => "CURRENCY_MISMATCH"
  | notOwner _ _ => "NOT_OWNER"
  | timeout _ => "TIMEOUT"
  | commitTimeout _ => "OUTCOME_UNKNOWN"
  | lookup _ | store _ _ => storeCode e.kind

def httpStatus (e : TransferError) : Nat :=
  match e with
  | sameAccount _ | invalidAmount _ | currencyMismatch _ _ => 400
  | notOwner _ _ => 403
  | accountNotFound _ => 404
  | timeout _ => 503
  | commitTimeout _ => 504
  | lookup _ | store _ _ => storeStatus e.kind

end TransferError
end DoubleEntry
