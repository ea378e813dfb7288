import DoubleEntry.Json.Basic

namespace DoubleEntry.Json

def isSpace (c : Char) : Bool := c == ' ' || c == '\n' || c == '\t' || c == '\r'

def dropSpaces (cs : List Char) : List Char := cs.dropWhile isSpace

def spanDigits (cs : List Char) : List Char × List Char :=
  (cs.takeWhile Char.isDigit,cs.dropWhile Char.isDigit)

-- A point and digits, or nothing. The flag tells which.
def readFraction : List Char → Option (Bool × List Char)
  | '.' :: rest =>
    match spanDigits rest with
    | ([],_) => none
    | (_,rest) => some (true,rest)
  | rest => some (false,rest)

def readExponent : List Char → Option (Bool × List Char)
  | c :: rest =>
    if c = 'e' ∨ c = 'E' then
      let rest := match rest with
        | '+' :: rest => rest
        | '-' :: rest => rest
        | rest => rest
      match spanDigits rest with
      | ([],_) => none
      | (_,rest) => some (true,rest)
    else some (false,c :: rest)
  | [] => some (false,[])

-- Digits without a leading zero, a fraction and an exponent. An integer has neither of these,
-- and a zero with a minus sign is not taken for one.
def readMagnitude (negative : Bool) (cs : List Char) : Option (Json × List Char) := do
  let (whole,rest) := match cs with
    | '0' :: rest => (['0'],rest)
    | cs => spanDigits cs
  if whole.isEmpty then none
  let (fraction,rest) ← readFraction rest
  let (exponent,rest) ← readExponent rest
  let n := Decimal.value whole
  if fraction || exponent || (negative && n == 0) then return (fractional,rest)
  else return (number (if negative then -(n : Int) else n),rest)

def readNumber : List Char → Option (Json × List Char)
  | '-' :: rest => readMagnitude true rest
  | cs => readMagnitude false cs

mutual
-- One value at the front of the text. The depth of nesting is bounded by `fuel`.
def readValue (fuel : Nat) (cs : List Char) : Option (Json × List Char) :=
  match fuel with
  | 0 => none
  | fuel + 1 =>
    match dropSpaces cs with
    | 'n' :: 'u' :: 'l' :: 'l' :: rest => some (null,rest)
    | 't' :: 'r' :: 'u' :: 'e' :: rest => some (bool true,rest)
    | 'f' :: 'a' :: 'l' :: 's' :: 'e' :: rest => some (bool false,rest)
    | '"' :: rest => (readContent rest).map fun (s,rest) => (string s,rest)
    | '[' :: rest =>
      match dropSpaces rest with
      | ']' :: rest => some (array [],rest)
      | rest => (readItems fuel rest).map fun (items,rest) => (array items,rest)
    | '\x7b' :: rest =>
      match dropSpaces rest with
      | '\x7d' :: rest => some (object [],rest)
      | rest => (readFields fuel rest).map fun (fields,rest) => (object fields,rest)
    | rest => readNumber rest
def readItems (fuel : Nat) (cs : List Char) : Option (List Json × List Char) :=
  match fuel with
  | 0 => none
  | fuel + 1 =>
    match readValue fuel cs with
    | none => none
    | some (v,rest) =>
      match dropSpaces rest with
      | ',' :: rest => (readItems fuel rest).map fun (items,rest) => (v :: items,rest)
      | ']' :: rest => some ([v],rest)
      | _ => none
def readFields (fuel : Nat) (cs : List Char) : Option (List (Content × Json) × List Char) :=
  match fuel with
  | 0 => none
  | fuel + 1 =>
    match dropSpaces cs with
    | '"' :: rest =>
      match readContent rest with
      | none => none
      | some (key,rest) =>
        match dropSpaces rest with
        | ':' :: rest =>
          match readValue fuel rest with
          | none => none
          | some (v,rest) =>
            match dropSpaces rest with
            | ',' :: rest =>
              (readFields fuel rest).map fun (fields,rest) => ((key,v) :: fields,rest)
            | '\x7d' :: rest => some ([(key,v)],rest)
            | _ => none
        | _ => none
    | _ => none
end

-- A text that holds one value and nothing else. Nesting and items cost fuel, but each takes a
-- character of the text too.
def parse (cs : List Char) : Option Json :=
  match readValue (2 * cs.length + 2) cs with
  | some (v,rest) => if (dropSpaces rest).isEmpty then some v else none
  | none => none

end DoubleEntry.Json
