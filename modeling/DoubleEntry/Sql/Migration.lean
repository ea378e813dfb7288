import DoubleEntry.Sha384
import DoubleEntry.Sql.Connection
import DoubleEntry.Sql.Schema

namespace DoubleEntry.Sql

structure Migration where
  version : Int
  script : String
deriving DecidableEq, Repr

def Migration.checksum (g : Migration) : List UInt8 := Sha384.digest g.script.toUTF8.toList

def migrations : List Migration := [⟨1,initialSchema⟩]

-- What a database says of earlier migrations; the dirty ones were begun and not completed.
structure History where
  applied : List (Int × List UInt8) := []
  dirty : List Int := []
deriving DecidableEq, Repr, Inhabited

class Bookkeeping (m : Type → Type) where
  history : m History
  record : Int → List UInt8 → m Unit

inductive MigrateError where
  | dirty (version : Int)
  | versionMissing (version : Int)
  | versionMismatch (version : Int)
  | execute (e : DriverError)
  | executeScript (e : DriverError) (version : Int)
deriving DecidableEq, Repr

namespace MigrateError

def message : MigrateError → String
  | dirty v =>
    "migration " ++ toString v ++
      " is partially applied; fix and remove row from `_sqlx_migrations` table"
  | versionMissing v =>
    "migration " ++ toString v ++
      " was previously applied but is missing in the resolved migrations"
  | versionMismatch v =>
    "migration " ++ toString v ++ " was previously applied but has been modified"
  | execute e => "while executing migrations: " ++ e.message
  | executeScript e v => "while executing migration " ++ toString v ++ ": " ++ e.message

def cause : MigrateError → Option DriverError
  | execute e => some e
  | executeScript e _ => some e
  | _ => none

end MigrateError

variable {m : Type → Type} [Monad m] [Connection m] [Bookkeeping m]

def applyMigration (g : Migration) : m (Except MigrateError Unit) := do
  match ← execute .begin with
  | .error e => return .error (.execute e)
  | .ok _ =>
    match ← execute (.script g.script) with
    | .error e =>
      Connection.abandon
      return .error (.executeScript e g.version)
    | .ok _ =>
      match ← finish .commit with
      | .error e => return .error (.execute e)
      | .ok () =>
        Bookkeeping.record g.version g.checksum
        return .ok ()

-- In order of version; the checksum is compared before anything later is applied.
def applyAll (known : List (Int × List UInt8)) : List Migration → m (Except MigrateError Unit)
  | [] => return .ok ()
  | g :: rest => do
    match known.lookup g.version with
    | some checksum =>
      if checksum = g.checksum then applyAll known rest
      else return .error (.versionMismatch g.version)
    | none =>
      match ← applyMigration g with
      | .error e => return .error e
      | .ok () => applyAll known rest

-- Brings the database up to the newest version. A dirty version stops everything, then one that
-- is applied there and unknown here.
def migrate : m (Except MigrateError Unit) := do
  let h ← Bookkeeping.history
  match h.dirty with
  | v :: _ => return .error (.dirty v)
  | [] =>
    match h.applied.find? fun (v,_) => !(migrations.any (·.version == v)) with
    | some (v,_) => return .error (.versionMissing v)
    | none => applyAll h.applied migrations

end DoubleEntry.Sql
