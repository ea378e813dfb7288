import Mathlib.Data.List.Basic
import DoubleEntry.Proofs.Numerals
import DoubleEntry.Json.Reader

namespace DoubleEntry.Json

section Strings

theorem hexValue_hexDigit {n : Nat} (fits : n < 16) : hexValue (hexDigit n) = some n := by
  have all : ∀ n < 16, hexValue (hexDigit n) = some n := by decide
  exact all n fits

theorem unit?_hexDigit {n : Nat} (fits : n < 32) :
    unit? '0' '0' (hexDigit (n / 16)) (hexDigit (n % 16)) = some n := by
  have zero : hexValue '0' = some 0 := rfl
  simp only [unit?,zero,hexValue_hexDigit (show n / 16 < 16 by omega),
    hexValue_hexDigit (show n % 16 < 16 by omega),Option.bind_eq_bind,Option.bind_some]
  show some _ = some n
  congr 1
  omega

-- A code unit that is half of no pair stands for its character, whatever comes behind it.
theorem readContent_unit {a b c d : Char} {n : Nat} (denotes : unit? a b c d = some n)
    (high : isHighSurrogate n = false) (low : isLowSurrogate n = false) (rest : List Char) :
    readContent ('\\' :: 'u' :: a :: b :: c :: d :: rest) =
      (readContent rest).map fun (s,rest) => (s.cons (Char.ofNat n),rest) := by
  rw [readContent.eq_def]
  split
  · contradiction
  · rename_i same
    cases same
  -- it may stand before another unit, but it is no half of a pair with that
  · rename_i same
    cases same
    simp [denotes,high,low]
  · rename_i same
    cases same
    simp [denotes,high,low]
  · rename_i shorter same
    cases same
    exact (shorter a b c d rest rfl rfl).elim
  · rename_i plain same
    cases same
    exact (plain _ _ rfl rfl).elim

theorem readContent_plain {c : Char} (quote : c ≠ '"') (backslash : c ≠ '\\')
    (printable : ¬c.toNat < 32) (rest : List Char) :
    readContent (c :: rest) = (readContent rest).map fun (s,rest) => (s.cons c,rest) := by
  simp [readContent,backslash,printable]

theorem readContent_escaped {x c : Char} (other : x ≠ 'u') (denotes : plainEscape x = some c)
    (rest : List Char) :
    readContent ('\\' :: x :: rest) = (readContent rest).map fun (s,rest) => (s.cons c,rest) := by
  simp [readContent,other,denotes]

theorem readContent_escape (c : Char) (rest : List Char) :
    readContent (escape c ++ rest) =
      (readContent rest).map fun (s,rest) => (s.cons c,rest) := by
  unfold escape
  repeat' split
  all_goals try
    subst_vars
    exact readContent_escaped (by decide) rfl rest
  · rename_i control
    have high : isHighSurrogate c.toNat = false := by
      simp [isHighSurrogate]
      omega
    have low : isLowSurrogate c.toNat = false := by
      simp [isLowSurrogate]
      omega
    have read := readContent_unit (unit?_hexDigit control) high low rest
    rwa [Char.ofNat_toNat] at read
  · apply readContent_plain <;> assumption

theorem readContent_escapes (s rest : List Char) :
    readContent (s.flatMap escape ++ '"' :: rest) = some (some s,rest) := by
  induction s with
  | nil => rfl
  | cons c s ih =>
    rw [List.flatMap_cons,List.append_assoc,readContent_escape,ih]
    rfl

theorem readContent_quote (s rest : List Char) :
    ∃ others, quote s ++ rest = '"' :: others ∧ readContent others = some (some s,rest) :=
  ⟨s.flatMap escape ++ '"' :: rest,by simp [quote],readContent_escapes s rest⟩

end Strings

def Closes (rest : List Char) : Prop :=
  ∀ c, rest.head? = some c → c ∈ [',',']','\x7d',' ','\n','\t','\r']

section Numbers
open Decimal
variable {rest : List Char}

theorem spanDigits_append {ds : List Char} (digits : ∀ d ∈ ds, d.isDigit = true)
    (closes : Closes rest) : spanDigits (ds ++ rest) = (ds,rest) := by
  unfold spanDigits
  rw [List.takeWhile_append_of_pos digits,List.dropWhile_append_of_pos digits]
  cases rest with
  | nil => simp
  | cons c others =>
    have stops : c.isDigit = false := by
      have known := closes c rfl
      simp only [List.mem_cons,List.not_mem_nil,or_false] at known
      rcases known with rfl | rfl | rfl | rfl | rfl | rfl | rfl <;> rfl
    simp [stops]

theorem readFraction_closed (closes : Closes rest) : readFraction rest = some (false,rest) := by
  cases rest with
  | nil => rfl
  | cons c others =>
    have known := closes c rfl
    simp only [List.mem_cons,List.not_mem_nil,or_false] at known
    rcases known with rfl | rfl | rfl | rfl | rfl | rfl | rfl <;> rfl

theorem readExponent_closed (closes : Closes rest) : readExponent rest = some (false,rest) := by
  cases rest with
  | nil => rfl
  | cons c others =>
    have known := closes c rfl
    simp only [List.mem_cons,List.not_mem_nil,or_false] at known
    rcases known with rfl | rfl | rfl | rfl | rfl | rfl | rfl <;> rfl

-- A numeral of several digits does not begin with a zero.
theorem digits_cons_zero {n : Nat} {ds : List Char} (is : digits n = '0' :: ds) : ds = [] := by
  have worth : value ds = n := by
    have whole := value_append ['0'] ds
    rw [List.singleton_append,← is,value_digits] at whole
    rw [whole]
    show _ = _ * 0 + _
    omega
  cases ds with
  | nil => rfl
  | cons d others =>
    have small : value (d :: others) < Nat.pow 10 (d :: others).length :=
      value_lt fun c member => isDigit_of_mem_digits (is ▸ List.mem_cons_of_mem _ member)
    rw [worth] at small
    have short : (digits n).length ≤ (d :: others).length :=
      (Nat.length_toDigits_le_iff (by decide) (by simp)).mpr small
    rw [is] at short
    exact absurd short (Nat.not_succ_le_self _)

theorem readMagnitude_digits (negative : Bool) {n : Nat} (some_ : negative = true → n ≠ 0)
    (closes : Closes rest) :
    readMagnitude negative (digits n ++ rest) =
      some (number (if negative then -(n : Int) else n),rest) := by
  have span : spanDigits (digits n ++ rest) = (digits n,rest) :=
    spanDigits_append (fun _ => isDigit_of_mem_digits) closes
  have exact_ : (negative && n == 0) = false := by
    cases negative with
    | false => rfl
    | true => simpa using some_ rfl
  have worth := value_digits n
  have ends := readFraction_closed closes
  have ends' := readExponent_closed closes
  cases is : digits n with
  | nil => exact absurd is Nat.toDigits_ne_nil
  | cons d ds =>
    rw [is] at span worth
    rw [List.cons_append] at span ⊢
    unfold readMagnitude
    split
    rename_i whole others parts
    have same : (d :: ds,rest) = (whole,others) := by
      rw [← parts]
      split
      · rename_i starts
        cases starts
        cases digits_cons_zero is
        rfl
      · exact span.symm
    cases same
    simp [ends,ends',worth,exact_]

theorem readNumber_ofInt (n : Int) (closes : Closes rest) :
    readNumber (ofInt n ++ rest) = some (number n,rest) := by
  unfold ofInt
  split
  · rw [List.cons_append,readNumber,readMagnitude_digits true (by omega) closes]
    congr 3
    simp only [if_true]
    omega
  · have read := readMagnitude_digits false (n := n.natAbs) nofun closes
    have worth : (n.natAbs : Int) = n := by omega
    -- no numeral begins with a minus sign
    cases is : digits n.natAbs with
    | nil => exact absurd is Nat.toDigits_ne_nil
    | cons d ds =>
      have digit : d.isDigit = true :=
        isDigit_of_mem_digits (n := n.natAbs) (is ▸ List.mem_cons_self)
      have unsigned : d ≠ '-' := by
        rintro rfl
        exact absurd digit (by decide)
      rw [is] at read
      rw [List.cons_append] at read ⊢
      simpa [readNumber,unsigned,worth] using read

end Numbers

end DoubleEntry.Json
