namespace DoubleEntry

inductive Rotation where
  | minutely
  | hourly
  | daily
  | never
deriving DecidableEq, Repr

namespace Rotation

def name : Rotation → String
  | minutely => "minutely"
  | hourly => "hourly"
  | daily => "daily"
  | never => "never"

-- Names count without regard to the case of the letters A to Z; any other name keeps one file.
def ofName (text : String) : Rotation :=
  ([minutely,hourly,daily].find? fun r => r.name.toList == text.toList.map Char.toLower).getD never

end Rotation

-- The filter for a level. Statements are logged at a level that would drown all else, so they
-- are shown only when something is wrong with them.
def filterDirectives (level : String) : String := level ++ ",sqlx=warn"

end DoubleEntry
