import DoubleEntry.Blank
import DoubleEntry.Decimal
import DoubleEntry.Clock.Date

namespace DoubleEntry

-- `nanos` runs up to two seconds: from 10^9 on it is the leap second after `seconds`.
structure Instant where
  seconds : Int
  nanos : Nat
deriving DecidableEq, Repr, Inhabited

namespace Instant

def ofMicros (us : Int) : Instant := ⟨us / 1000000,(us % 1000000).toNat * 1000⟩

def ofMillis (ms : Nat) : Instant := ofMicros (ms * 1000)

def secondsPerDay : Int := 86400

section Printing
open Decimal

def yearText (year : Int) : List Char :=
  if 0 ≤ year ∧ year ≤ 9999 then padded 4 year.natAbs
  else (if year < 0 then '-' else '+') :: padded 4 year.natAbs

def fractionText (nanos : Nat) : List Char :=
  if nanos = 0 then []
  else if nanos % 1000000 = 0 then '.' :: padded 3 (nanos / 1000000)
  else if nanos % 1000 = 0 then '.' :: padded 6 (nanos / 1000)
  else '.' :: padded 9 nanos

def print (t : Instant) : List Char :=
  let date := Date.ofDays (t.seconds / secondsPerDay)
  let second := (t.seconds % secondsPerDay).toNat
  let leap := t.nanos / 1000000000
  yearText date.year ++ '-' :: padded 2 date.month ++ '-' :: padded 2 date.day ++
    'T' :: padded 2 (second / 3600) ++ ':' :: padded 2 (second / 60 % 60) ++
    ':' :: padded 2 (second % 60 + leap) ++ fractionText (t.nanos % 1000000000) ++ ['Z']

def text (t : Instant) : String := String.ofList t.print

end Printing

section Reading

def readNumber (most : Nat) (cs : List Char) : Option (Nat × List Char) :=
  match (cs.take most).takeWhile Char.isDigit with
  | [] => none
  | ds => some (Decimal.value ds,cs.drop ds.length)

-- A year without a sign has at most four digits; with one it has any number.
def readYear (cs : List Char) : Option (Int × List Char) :=
  match dropBlanks cs with
  | '-' :: rest => (readNumber rest.length rest).map fun (n,rest) => (-(n : Int),rest)
  | '+' :: rest => (readNumber rest.length rest).map fun (n,rest) => ((n : Int),rest)
  | rest => (readNumber 4 rest).map fun (n,rest) => ((n : Int),rest)

def readTwo (cs : List Char) : Option (Nat × List Char) := readNumber 2 (dropBlanks cs)

def readMark (mark : Char) (cs : List Char) : Option (List Char) :=
  match dropBlanks cs with
  | c :: rest => if c = mark then some rest else none
  | [] => none

-- Digits past the ninth are cut.
def readFraction : List Char → Option (Nat × List Char)
  | '.' :: cs =>
    match (cs.takeWhile Char.isDigit).take 9 with
    | [] => none
    | ds => some (Decimal.value (ds.rightpad 9 '0'),cs.dropWhile Char.isDigit)
  | cs => some (0,cs)

-- Hours and minutes of an offset have two digits each; colons and blanks may stand between.
def readHourMinute : List Char → Option (Nat × List Char)
  | h1 :: h2 :: rest =>
    if h1.isDigit ∧ h2.isDigit then
      match rest.dropWhile (fun c => c == ':' || isBlank c) with
      | m1 :: m2 :: rest =>
        if m1.isDigit ∧ m2.isDigit ∧ m1.toNat < '6'.toNat then
          some (Decimal.value [h1,h2] * 60 + Decimal.value [m1,m2],rest)
        else none
      | _ => none
    else none
  | _ => none

def readOffset : List Char → Option (Int × List Char)
  | 'Z' :: rest | 'z' :: rest => some (0,rest)
  | '+' :: rest => (readHourMinute rest).map fun (n,rest) => ((n : Int),rest)
  | '-' :: rest | '−' :: rest => (readHourMinute rest).map fun (n,rest) => (-(n : Int),rest)
  | u :: t :: c :: rest =>
    if u.toUpper = 'U' ∧ t.toUpper = 'T' ∧ c.toUpper = 'C' then some (0,rest) else none
  | _ => none

-- The instant of a date, a time of day and an offset, if they exist. Second 60 is a leap second.
def ofParts (date : Date) (hour minute second nanos : Nat) (offset : Int) : Option Instant :=
  if date.Valid ∧ Date.firstYear ≤ date.year ∧ date.year ≤ Date.lastYear ∧
      hour < 24 ∧ minute < 60 ∧ second ≤ 60 ∧ offset.natAbs < 1440 then
    let leap := second / 60
    let local_ := date.toDays * secondsPerDay + hour * 3600 + minute * 60 + (second - leap)
    let t : Instant := ⟨local_ - offset * 60,nanos + leap * 1000000000⟩
    let year := (Date.ofDays (t.seconds / secondsPerDay)).year
    if Date.firstYear ≤ year ∧ year ≤ Date.lastYear then some t else none
  else none

def read (cs : List Char) : Option Instant := do
  let (year,cs) ← readYear cs
  let cs ← readMark '-' cs
  let (month,cs) ← readTwo cs
  let cs ← readMark '-' cs
  let (day,cs) ← readTwo cs
  let cs ← match cs with
    | 'T' :: cs | 't' :: cs | ' ' :: cs => some cs
    | _ => none
  let (hour,cs) ← readTwo cs
  let cs ← readMark ':' cs
  let (minute,cs) ← readTwo cs
  let cs ← readMark ':' cs
  let (second,cs) ← readTwo cs
  let (nanos,cs) ← readFraction cs
  let (offset,cs) ← readOffset (dropBlanks cs)
  if (dropBlanks cs).isEmpty then ofParts ⟨year,month,day⟩ hour minute second nanos offset
  else none

end Reading

end Instant
end DoubleEntry
