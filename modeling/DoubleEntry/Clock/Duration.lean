import DoubleEntry.Decimal

namespace DoubleEntry

structure Duration where
  nanos : Nat
deriving DecidableEq, Repr, Inhabited

namespace Duration

def ofMillis (ms : Nat) : Duration := ⟨ms * 1000000⟩

-- On a clock that counts milliseconds; one that has begun counts as a whole one.
@[irreducible]
def ticks (d : Duration) : Nat := (d.nanos + 999999) / 1000000

@[simp] theorem ticks_ofMillis (ms : Nat) : (ofMillis ms).ticks = ms := by
  unfold ticks ofMillis
  show (ms * 1000000 + 999999) / 1000000 = ms
  omega

-- The number of decimal places that one unit is worth in nanoseconds, and its sign.
def scale (n : Nat) : Nat × String :=
  if 1000000000 ≤ n then (9,"s")
  else if 1000000 ≤ n then (6,"ms")
  else if 1000 ≤ n then (3,"µs")
  else (0,"ns")

def dropTrailingZeros (cs : List Char) : List Char :=
  (cs.reverse.dropWhile (· == '0')).reverse

def text (d : Duration) : String :=
  let (places,sign) := scale d.nanos
  let unit := Nat.pow 10 places
  let whole := Decimal.digits (d.nanos / unit)
  match dropTrailingZeros (Decimal.padded places (d.nanos % unit)) with
  | [] => String.ofList whole ++ sign
  | fraction => String.ofList (whole ++ '.' :: fraction) ++ sign

end Duration
end DoubleEntry
