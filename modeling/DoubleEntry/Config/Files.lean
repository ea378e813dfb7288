namespace DoubleEntry

structure Files where
  entries : List (String × ByteArray) := []

namespace Files

def notFound : String := "No such file or directory (os error 2)"
def notDirectory : String := "Not a directory (os error 20)"
def isDirectory : String := "Is a directory (os error 21)"
def nameTooLong : String := "File name too long (os error 36)"
def notUtf8 : String := "stream did not contain valid UTF-8"
def zeroInName : String := "file name contained an unexpected NUL byte"

def longestName : Nat := 255
def longestPath : Nat := 4095

def names (path : String) : List String := (path.splitOn "/").filter fun n => n ≠ "" ∧ n ≠ "."

def file? (fs : Files) (place : List String) : Option ByteArray :=
  (fs.entries.find? fun (p,_) => names p = place).map Prod.snd

-- A directory is there because something lies in it; only the outermost one may be empty.
def hasDirectory (fs : Files) (place : List String) : Bool :=
  place.isEmpty || fs.entries.any fun (p,_) => place.isPrefixOf (names p) && place != names p

-- Where a name leads from a directory; from outside the tree only farther out.
def enter (place : Option (List String)) (name : String) : Except String (Option (List String)) :=
  if name = ".." then
    .ok (place.bind fun names => if names.isEmpty then none else some names.dropLast)
  else if longestName < name.utf8ByteSize then .error nameTooLong
  else place.elim (.error notFound) fun names => .ok (some (names ++ [name]))

-- Follows the names one by one. Each has to be looked up in a directory, also one that is left
-- again by two points.
def resolve (fs : Files) : Option (List String) → List String → Except String (Option (List String))
  | place, [] => .ok place
  | place, name :: rest =>
    if place.all fs.hasDirectory then do
      resolve fs (← enter place name) rest
    else .error (if place.any fun names => (fs.file? names).isSome then notDirectory else notFound)

def read (fs : Files) (path : String) : Except String String := do
  if path.contains '\x00' then throw zeroInName
  if longestPath < path.utf8ByteSize then throw nameTooLong
  match ← fs.resolve (some []) (names path) with
  | none => throw isDirectory
  | some place =>
    match fs.file? place with
    | some bytes =>
      match String.fromUTF8? bytes with
      | some text => return text
      | none => throw notUtf8
    | none => throw (if fs.hasDirectory place then isDirectory else notFound)

end Files
end DoubleEntry
