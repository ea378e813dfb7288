import Mathlib.Data.List.Basic
import DoubleEntry.Decimal

namespace DoubleEntry.Decimal

theorem padded_eq (width n : Nat) :
    padded width n = List.replicate (width - (digits n).length) '0' ++ digits n := rfl

theorem padded_ne_nil (width n : Nat) : padded width n ≠ [] := by
  rw [padded_eq]
  exact List.append_ne_nil_of_right_ne_nil _ Nat.toDigits_ne_nil

theorem isDigit_of_mem_padded {width n : Nat} {c : Char} (member : c ∈ padded width n) :
    c.isDigit = true := by
  rw [padded_eq] at member
  rcases List.mem_append.mp member with zero | digit
  · rw [List.eq_of_mem_replicate zero]
    rfl
  · exact isDigit_of_mem_digits digit

theorem length_padded {width n : Nat} (some : 0 < width) (fits : n < Nat.pow 10 width) :
    (padded width n).length = width := by
  have short : (digits n).length ≤ width :=
    (Nat.length_toDigits_le_iff (by decide) some).mpr fits
  rw [padded,List.length_leftpad]
  exact Nat.max_eq_left short

theorem value_append (ds es : List Char) :
    value (ds ++ es) = Nat.pow 10 es.length * value ds + value es := by
  unfold value
  rw [Nat.ofDigitChars_append,Nat.ofDigitChars_eq_ofDigitChars_zero]
  rfl

theorem value_replicate_zero (n : Nat) : value (List.replicate n '0') = 0 := by
  unfold value
  rw [Nat.ofDigitChars_replicate_zero]
  rfl

theorem value_padded (width n : Nat) : value (padded width n) = n := by
  rw [padded_eq,value_append,value_replicate_zero,value_digits]
  omega

theorem toNat_of_isDigit {c : Char} (digit : c.isDigit = true) : 48 ≤ c.toNat ∧ c.toNat ≤ 57 := by
  simpa [Char.isDigit,UInt32.le_iff_toNat_le] using digit

theorem value_lt {ds : List Char} (digits : ∀ c ∈ ds, c.isDigit = true) :
    value ds < Nat.pow 10 ds.length := by
  induction ds with
  | nil => exact Nat.zero_lt_one
  | cons d rest ih =>
    have first : value [d] ≤ 9 := by
      have digit := toNat_of_isDigit (digits d List.mem_cons_self)
      have zero : '0'.toNat = 48 := rfl
      rw [value,Nat.ofDigitChars_cons,Nat.ofDigitChars_nil]
      omega
    have others := ih fun c member => digits c (List.mem_cons_of_mem d member)
    calc
      value (d :: rest) = Nat.pow 10 rest.length * value [d] + value rest := value_append [d] rest
      _ < Nat.pow 10 rest.length * 9 + Nat.pow 10 rest.length :=
        Nat.add_lt_add_of_le_of_lt (Nat.mul_le_mul_left _ first) others
      _ = Nat.pow 10 (d :: rest).length := (Nat.mul_succ _ _).symm

end DoubleEntry.Decimal
