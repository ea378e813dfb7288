import Mathlib.Data.List.Basic
import DoubleEntry.Clock.Date

namespace DoubleEntry.Date

def yearLength (year : Int) : Nat := if isLeap year then 366 else 365

theorem sum_monthLengths (year : Int) :
    (monthLengths year).foldr (· + ·) 0 = yearLength year := by
  unfold monthLengths yearLength
  cases isLeap year <;> rfl

-- The four-hundred-year cycle, its centuries, their four-year cycles and the years of those.
theorem yearOfDays_parts (n : Int) :
    ∃ a c q y : Int, ∃ day : Nat, yearOfDays n = (a * 400 + c * 100 + q * 4 + y + 1,day) ∧
      0 ≤ c ∧ c ≤ 3 ∧ 0 ≤ q ∧ q ≤ 24 ∧ 0 ≤ y ∧ y ≤ 3 ∧
      n = a * 146097 + c * 36524 + q * 1461 + y * 365 + day ∧
      (day < 365 ∨ day = 365 ∧ y = 3 ∧ (q = 24 → c = 3)) := by
  refine ⟨n / 146097,min 3 (n % 146097 / 36524),_,_,_,rfl,?_⟩
  omega

theorem isLeap_iff (year : Int) :
    isLeap year = true ↔ year % 4 = 0 ∧ (year % 100 ≠ 0 ∨ year % 400 = 0) := by
  simp [isLeap]

theorem yearOfDays_spec (n : Int) :
    daysBeforeYear (yearOfDays n).1 + (yearOfDays n).2 = n ∧
      (yearOfDays n).2 < yearLength (yearOfDays n).1 := by
  obtain ⟨a,c,q,y,day,parts,bounds⟩ := yearOfDays_parts n
  rw [parts]
  constructor
  · simp only [daysBeforeYear]
    omega
  · unfold yearLength
    split
    · omega
    · rename_i common
      rw [isLeap_iff] at common
      omega

theorem monthOfDay_spec (lengths : List Nat) (month day : Nat)
    (inside : day < lengths.foldr (· + ·) 0) :
    ∃ i, monthOfDay lengths month day =
        (month + i,day - (lengths.take i).foldr (· + ·) 0 + 1) ∧
      (lengths.take i).foldr (· + ·) 0 ≤ day ∧
      day - (lengths.take i).foldr (· + ·) 0 < lengths.getD i 0 := by
  induction lengths generalizing month day with
  | nil => cases inside
  | cons len rest ih =>
    unfold monthOfDay
    by_cases here : day < len
    · exact ⟨0,by simp [here]⟩
    · rw [List.foldr_cons] at inside
      obtain ⟨i,found,low,high⟩ := ih (month + 1) (day - len) (by omega)
      refine ⟨i + 1,?_,?_,?_⟩
      · rw [if_neg here,found,List.take_succ_cons,List.foldr_cons]
        congr 1
        · omega
        · omega
      · rw [List.take_succ_cons,List.foldr_cons]
        omega
      · rw [List.take_succ_cons,List.foldr_cons,List.getD_cons_succ]
        omega

theorem month_lt_of_getD {year : Int} {i day : Nat} (inside : day < (monthLengths year).getD i 0) :
    i < 12 := by
  by_contra beyond
  rw [List.getD_eq_getElem?_getD,List.getElem?_eq_none (Nat.le_of_not_lt beyond)] at inside
  cases inside

-- Every day of the count is a day of the calendar, and counts as itself.
theorem ofDays_spec (n : Int) : (ofDays n).Valid ∧ (ofDays n).toDays = n := by
  obtain ⟨counted,inside⟩ := yearOfDays_spec (n + epoch)
  unfold ofDays
  generalize yearOfDays (n + epoch) = at_ at counted inside ⊢
  obtain ⟨year,day⟩ := at_
  rw [← sum_monthLengths] at inside
  obtain ⟨i,found,low,high⟩ := monthOfDay_spec (monthLengths year) 1 day inside
  have known := month_lt_of_getD high
  dsimp only at counted ⊢
  rw [found]
  dsimp only
  constructor
  · simp only [Valid,Nat.add_sub_cancel_left]
    omega
  · simp only [toDays,daysBeforeMonth,Nat.add_sub_cancel_left]
    omega

end DoubleEntry.Date
