import DoubleEntry.Decimal
import DoubleEntry.Json.Text

namespace DoubleEntry

inductive Json where
  | null
  | bool (b : Bool)
  | number (n : Int)
  | fractional
  | string (s : Json.Content)
  | array (items : List Json)
  | object (fields : List (Json.Content × Json))
deriving Inhabited

namespace Json

def text (s : String) : Json := string (some s.toList)

def record (fields : List (String × Json)) : Json :=
  object (fields.map fun (key,v) => (some key.toList,v))

-- What denotes no integer and no text has no written form here; null stands for it.
def literal : Content → List Char
  | some s => quote s
  | none => "null".toList

def joined (separator : List Char) : List (List Char) → List Char
  | [] => []
  | [x] => x
  | x :: rest => x ++ separator ++ joined separator rest

mutual
def compact : Json → List Char
  | null => "null".toList
  | bool b => (if b then "true" else "false").toList
  | number n => Decimal.ofInt n
  | fractional => "null".toList
  | string s => literal s
  | array items => '[' :: joined [','] (compactAll items) ++ [']']
  | object fields => '\x7b' :: joined [','] (compactFields fields) ++ ['\x7d']
def compactAll : List Json → List (List Char)
  | [] => []
  | v :: rest => compact v :: compactAll rest
def compactFields : List (Content × Json) → List (List Char)
  | [] => []
  | (key,v) :: rest => (literal key ++ ':' :: compact v) :: compactFields rest
end

def newline (depth : Nat) : List Char := '\n' :: List.replicate (2 * depth) ' '

def block (left right : Char) (depth : Nat) : List (List Char) → List Char
  | [] => [left,right]
  | lines =>
    left :: newline (depth + 1) ++ joined (',' :: newline (depth + 1)) lines ++
      newline depth ++ [right]

mutual
def pretty (depth : Nat) : Json → List Char
  | array items => block '[' ']' depth (prettyAll (depth + 1) items)
  | object fields => block '\x7b' '\x7d' depth (prettyFields (depth + 1) fields)
  | null => compact null
  | bool b => compact (bool b)
  | number n => compact (number n)
  | fractional => compact fractional
  | string s => compact (string s)
def prettyAll (depth : Nat) : List Json → List (List Char)
  | [] => []
  | v :: rest => pretty depth v :: prettyAll depth rest
def prettyFields (depth : Nat) : List (Content × Json) → List (List Char)
  | [] => []
  | (key,v) :: rest => (literal key ++ ':' :: ' ' :: pretty depth v) :: prettyFields depth rest
end

def render (v : Json) : String := String.ofList v.compact

def renderPretty (v : Json) : String := String.ofList (v.pretty 0)

end Json
end DoubleEntry
