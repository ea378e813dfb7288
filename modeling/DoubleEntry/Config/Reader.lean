import DoubleEntry.Config.Basic
import DoubleEntry.Yaml.Document

namespace DoubleEntry

namespace Yaml.Document

-- `none` if the key repeats.
def field? (key : String) (fields : List (String × Node Nat)) : Option (Option (Node Nat)) :=
  match fields.filter (·.1 == key) with
  | [] => some none
  | [(_,v)] => some (some v)
  | _ => none

def truth? (text : String) : Option Bool :=
  if ["true","True","TRUE"].contains text then some true
  else if ["false","False","FALSE"].contains text then some false
  else none

def bool? (d : Document) (v : Node Nat) : Option Bool := (d.textOf? Tag.bool v).bind truth?

def digitValue? (base : Nat) (c : Char) : Option Nat :=
  (Json.hexValue c).bind fun d => if d < base then some d else none

def inBase? (base : Nat) : List Char → Option Nat
  | [] => none
  | cs => cs.foldlM (fun n c => (digitValue? base c).map (n * base + ·)) 0

-- A natural number, in base 10 without leading zeros, or in base 16, 8 or 2 behind its mark.
def natural? (text : String) : Option Nat :=
  let cs := match text.toList with
    | '+' :: rest => rest
    | cs => cs
  match cs with
  | '0' :: 'x' :: rest => inBase? 16 rest
  | '0' :: 'o' :: rest => inBase? 8 rest
  | '0' :: 'b' :: rest => inBase? 2 rest
  | '0' :: _ :: _ => none
  | cs => inBase? 10 cs

def below? (bound : Nat) (d : Document) (v : Node Nat) : Option Nat := do
  let n ← natural? (← d.textOf? Tag.int v)
  if n < bound then some n else none

end Yaml.Document

open Yaml

def word32 : Nat := 4294967296
def word64 : Nat := 18446744073709551616

def needed (key : String) (read : Node Nat → Option α) (fields : List (String × Node Nat)) :
    Option α := do
  read (← ← Document.field? key fields)

def withDefault (key : String) (read : Node Nat → Option α) (default : α)
    (fields : List (String × Node Nat)) : Option α := do
  match ← Document.field? key fields with
  | none => return default
  | some v => read v

def DatabaseConfig.read? (d : Document) (v : Node Nat) : Option DatabaseConfig := do
  let fs ← d.fields? v
  return {
    url := ← needed "url" d.text? fs
    maxConnections := ← withDefault "max_connections" (d.below? word32) 20 fs
    acquireTimeoutMs := ← withDefault "acquire_timeout_ms" (d.below? word64) 5000 fs }

def TransferConfig.read? (d : Document) (v : Node Nat) : Option TransferConfig := do
  let fs ← d.fields? v
  return {
    txTimeoutMs := ← needed "tx_timeout_ms" (d.below? word64) fs
    maxRetries := ← needed "max_retries" (d.below? word32) fs
    retryBackoffMs := ← needed "retry_backoff_ms" (d.below? word64) fs }

namespace Config

def ofDocument? (d : Document) : Option Config := do
  let fs ← d.fields? d.root
  return {
    logLevel := ← needed "log_level" d.text? fs
    logDir := ← needed "log_dir" d.text? fs
    logFile := ← needed "log_file" d.text? fs
    useJson := ← needed "use_json" d.bool? fs
    rotation := ← needed "rotation" d.text? fs
    database := ← needed "database" (DatabaseConfig.read? d) fs
    transfer := ← withDefault "transfer" (TransferConfig.read? d) {} fs }

def ofYaml (text : String) : Except ConfigError Config :=
  match (Document.read text.toList).bind ofDocument? with
  | some config => .ok config
  | none => .error .parse

def path (env : String) : String := "config/" ++ env ++ ".yaml"

-- Reads the settings; a database URL from outside takes the place of the one in the file.
def load (readFile : String → Except String String) (databaseUrl : Option String) (env : String) :
    Except ConfigError Config :=
  match readFile (path env) with
  | .error cause => .error (.read (path env) cause)
  | .ok text =>
    match ofYaml text with
    | .error e => .error e
    | .ok config =>
      .ok { config with database :=
        { config.database with url := databaseUrl.getD config.database.url } }

end Config
end DoubleEntry
