namespace DoubleEntry.Bigint

def least : Int := -9223372036854775808
def greatest : Int := 9223372036854775807

def Fits (n : Int) : Prop := least ≤ n ∧ n ≤ greatest

instance (n : Int) : Decidable (Fits n) := inferInstanceAs (Decidable (_ ∧ _))

def add? (m n : Int) : Option Int := if Fits (m + n) then some (m + n) else none

theorem add?_eq_some {m n r : Int} : add? m n = some r ↔ Fits (m + n) ∧ r = m + n := by
  unfold add?
  split <;> simp_all [eq_comm]

theorem add?_eq_none {m n : Int} : add? m n = none ↔ ¬Fits (m + n) := by
  unfold add?
  split <;> simp_all

inductive ReadError where
  | empty
  | invalidDigit
  | aboveRange
  | belowRange
deriving DecidableEq, Repr

def ReadError.message : ReadError → String
  | .empty => "cannot parse integer from empty string"
  | .invalidDigit => "invalid digit found in string"
  | .aboveRange => "number too large to fit in target type"
  | .belowRange => "number too small to fit in target type"

-- The value is checked digit by digit from the left, so a number that is already too long
-- reports its range even when a letter follows.
def readDigits (negative : Bool) : Int → List Char → Except ReadError Int
  | n, [] => .ok n
  | n, c :: rest =>
    if c.isDigit then
      let digit : Int := c.toNat - 48
      let next := if negative then n * 10 - digit else n * 10 + digit
      if Fits next then readDigits negative next rest
      else .error (if negative then .belowRange else .aboveRange)
    else .error .invalidDigit

def read (text : String) : Except ReadError Int :=
  match text.toList with
  | [] => .error .empty
  | ['+'] | ['-'] => .error .invalidDigit
  | '+' :: digits => readDigits false 0 digits
  | '-' :: digits => readDigits true 0 digits
  | digits => readDigits false 0 digits

end DoubleEntry.Bigint
