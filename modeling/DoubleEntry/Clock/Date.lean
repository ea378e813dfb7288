namespace DoubleEntry

structure Date where
  year : Int
  month : Nat
  day : Nat
deriving DecidableEq, Repr, Inhabited

namespace Date

def isLeap (year : Int) : Bool := year % 4 == 0 && (year % 100 != 0 || year % 400 == 0)

def monthLengths (year : Int) : List Nat :=
  [31,if isLeap year then 29 else 28,31,30,31,30,31,31,30,31,30,31]

def firstYear : Int := -262143
def lastYear : Int := 262142

def Valid (d : Date) : Prop :=
  1 ≤ d.month ∧ d.month ≤ 12 ∧ 1 ≤ d.day ∧ d.day ≤ (monthLengths d.year).getD (d.month - 1) 0

instance (d : Date) : Decidable d.Valid := inferInstanceAs (Decidable (_ ∧ _))

-- Days from 0001-01-01 to the first of January of `year`.
def daysBeforeYear (year : Int) : Int :=
  let y := year - 1
  365 * y + y / 4 - y / 100 + y / 400

-- 1970-01-01 is day 719162 from 0001-01-01.
def epoch : Int := 719162

def daysBeforeMonth (year : Int) (month : Nat) : Nat :=
  ((monthLengths year).take (month - 1)).foldr (· + ·) 0

def toDays (d : Date) : Int :=
  daysBeforeYear d.year - epoch + daysBeforeMonth d.year d.month + d.day - 1

def yearOfDays (n : Int) : Int × Nat :=
  let r400 := n % 146097
  let c := min 3 (r400 / 36524)
  let r100 := r400 - c * 36524
  let q := r100 / 1461
  let r4 := r100 - q * 1461
  let y := min 3 (r4 / 365)
  (n / 146097 * 400 + c * 100 + q * 4 + y + 1,(r4 - y * 365).toNat)

-- Month and day from the day of the year, both counted from 1.
def monthOfDay : List Nat → Nat → Nat → Nat × Nat
  | [], month, day => (month,day + 1)
  | len :: rest, month, day =>
    if day < len then (month,day + 1) else monthOfDay rest (month + 1) (day - len)

def ofDays (days : Int) : Date :=
  let (year,day) := yearOfDays (days + epoch)
  let (month,day) := monthOfDay (monthLengths year) 1 day
  ⟨year,month,day⟩

end Date
end DoubleEntry
