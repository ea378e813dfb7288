namespace DoubleEntry

def longestRest : Nat := 30 * 365 * 24 * 3600 * 1000

def restUntil (now ticks : Nat) : Nat := now + min ticks longestRest

theorem le_restUntil (now ticks : Nat) : now ≤ restUntil now ticks := Nat.le_add_right ..

end DoubleEntry
