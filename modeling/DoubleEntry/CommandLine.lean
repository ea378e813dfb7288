import DoubleEntry.Bigint
import DoubleEntry.Config.Reader
import DoubleEntry.Json.Books
import DoubleEntry.Sql.Accounts
import DoubleEntry.Sql.Migration

namespace DoubleEntry.CommandLine

-- The argument behind the first occurrence of `name` that has one.
def option? (name : String) : List String → Option String
  | a :: v :: rest => if a = name then some v else option? name (v :: rest)
  | _ => none

def flag (name : String) (args : List String) : Bool := args.contains name

def environment (args : List String) : String :=
  ((option? "--env" args).or (option? "-e" args)).getD "dev"

inductive Command where
  | migrate
  | createAccount (owner : String) (currency : Currency)
  | listAccounts (owner : String)
  | transfer (request : TransferRequest)
deriving DecidableEq, Repr

inductive UsageError where
  | missing (option : String)
  | invalid (option given cause : String)
  | nothingToDo
deriving DecidableEq, Repr

namespace UsageError

def chain : UsageError → List String
  | missing option => ["missing " ++ option]
  | invalid option given cause => ["invalid value for " ++ option ++ ": " ++ given,cause]
  | nothingToDo =>
    ["nothing to do: pass --migrate, --create-account, --accounts or --from/--to/--amount"]

end UsageError

def required (name : String) (args : List String) : Except UsageError String :=
  match option? name args with
  | some v => .ok v
  | none => .error (.missing name)

def requiredInt (name : String) (args : List String) : Except UsageError Int := do
  let given ← required name args
  match Bigint.read given with
  | .ok n => return n
  | .error e => throw (.invalid name given e.message)

def requiredCurrency (name : String) (args : List String) : Except UsageError Currency := do
  let given ← required name args
  match Currency.ofName? given with
  | some currency => return currency
  | none => throw (.invalid name given (Currency.unsupported given))

-- What the arguments ask for. The flags are looked for in this order.
def Command.read (args : List String) : Except UsageError Command :=
  if flag "--migrate" args then .ok .migrate
  else if flag "--create-account" args then do
    let owner ← required "--owner" args
    let currency ← requiredCurrency "--currency" args
    return .createAccount owner currency
  else if flag "--accounts" args then do
    return .listAccounts (← required "--owner" args)
  else if (option? "--from" args).isNone then .error .nothingToDo
  else do
    let source ← requiredInt "--from" args
    let destination ← requiredInt "--to" args
    let amount ← requiredInt "--amount" args
    return .transfer ⟨⟨source,destination,amount⟩,option? "--owner" args⟩

inductive Failure where
  | config (e : ConfigError)
  | connect (e : DriverError)
  | healthCheck (e : DriverError)
  | migrate (e : Sql.MigrateError)
  | usage (e : UsageError)
  | accounts (e : StoreError)
  | transfer (e : TransferError)

def driverChain (e : DriverError) : List String := e.message :: e.cause.toList

def Failure.chain : Failure → List String
  | config e => "loading configuration" :: e.message :: e.cause.toList
  | connect e => "connecting to PostgreSQL" :: driverChain e
  | healthCheck e => "database health check" :: driverChain e
  | migrate e => "applying migrations" :: e.message :: (e.cause.map driverChain).getD []
  | usage e => e.chain
  | accounts e => [e.message]
  | transfer e => "transfer failed" :: e.message :: (e.cause.map StoreError.message).toList

def indentLines (by_ : Nat) (text : String) : String :=
  String.ofList <| text.toList.flatMap fun c =>
    if c = '\n' then '\n' :: List.replicate by_ ' ' else [c]

def numbered (n : Nat) (text : String) : String :=
  let digits := Nat.toDigits 10 n
  "\n" ++ String.ofList (digits.leftpad 5 ' ') ++ ": " ++ indentLines 7 text

def numberedFrom : Nat → List String → String
  | _, [] => ""
  | n, text :: rest => numbered n text ++ numberedFrom (n + 1) rest

def causes : List String → String
  | [] => ""
  | [text] => "\n\nCaused by:\n    " ++ indentLines 4 text
  | texts => "\n\nCaused by:" ++ numberedFrom 0 texts

def Failure.report (f : Failure) : String :=
  match f.chain with
  | [] => ""
  | outer :: inner => "Error: " ++ outer ++ causes inner ++ "\n"

variable {m : Type → Type} [Monad m] [Sql.Connection m]

def orFail (wrap : ε → Failure) (work : m (Except ε α)) : ExceptT Failure m α := do
  match ← work with
  | .ok a => return a
  | .error e => throw (wrap e)

def Command.execute (config : Config) : Command → ExceptT Failure m (Option Json)
  | migrate => return none
  | createAccount owner currency => do
    let account ← orFail .accounts (Sql.Accounts.create owner currency)
    return some account.toJson
  | listAccounts owner => do
    let accounts ← orFail .accounts (Sql.Accounts.listByOwner owner 100 0)
    return some (.array (accounts.map Account.toJson))
  | transfer request => do
    let settings := config.transfer
    let policy : RetryPolicy := ⟨settings.maxRetries,settings.retryBackoffMs⟩
    let receipt ← orFail .transfer (Sql.Accounts.transfer policy settings.txTimeout request)
    return some receipt.toJson

-- Everything from the arguments on. The database is brought up to date before the arguments are
-- looked at any further than for the environment.
def work [Sql.Bookkeeping m] (load : String → Except ConfigError Config) (args : List String) :
    ExceptT Failure m (Option Json) := do
  let config ← orFail .config (pure (load (environment args)))
  orFail .connect (Sql.Connection.dial config.database.url)
  let _ ← orFail .healthCheck (Sql.execute .ping)
  orFail .migrate Sql.migrate
  let command ← orFail .usage (pure (Command.read args))
  command.execute config

structure Exit where
  code : Nat
  out : String
  err : String
deriving DecidableEq, Repr

def run [Sql.Bookkeeping m] (load : String → Except ConfigError Config) (args : List String) :
    m Exit := do
  match ← (work load args).run with
  | .ok none => return ⟨0,"",""⟩
  | .ok (some v) => return ⟨0,v.renderPretty ++ "\n",""⟩
  | .error f => return ⟨1,"",f.report⟩

end DoubleEntry.CommandLine
