import DoubleEntry.CommandLine
import DoubleEntry.Config.Files
import DoubleEntry.Sql.Server

namespace DoubleEntry.CommandLine

-- The system's number of an error may come negated.
def errorNumber (code : UInt32) : Nat := code.toInt32.toInt.natAbs

def fileError : IO.Error → String
  | .noFileOrDirectory .. => Files.notFound
  | .inappropriateType _ code _ =>
    if errorNumber code = 20 then Files.notDirectory else Files.isDirectory
  | .invalidArgument _ code details =>
    if errorNumber code = 36 then Files.nameTooLong else details
  | e => toString e

def readText (path : String) : IO (Except String String) := do
  try
    let bytes ← IO.FS.readBinFile path
    return (String.fromUTF8? bytes).elim (.error Files.notUtf8) .ok
  catch e => return .error (fileError e)

end DoubleEntry.CommandLine

open DoubleEntry

def main (args : List String) : IO UInt32 := do
  let text ← CommandLine.readText (Config.path (CommandLine.environment args))
  let url ← IO.getEnv "DATABASE_URL"
  let work : Sql.Session CommandLine.Exit :=
    CommandLine.run (Config.load (fun _ => text) url) args
  let exit := (work.run { reachable := false }).1
  IO.print exit.out
  IO.eprint exit.err
  return .ofNat exit.code
