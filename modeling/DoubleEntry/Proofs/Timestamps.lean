import Mathlib.Data.List.TakeWhile
import DoubleEntry.Proofs.Calendar
import DoubleEntry.Proofs.Numerals
import DoubleEntry.Clock.Instant

namespace DoubleEntry

theorem isBlank_of_isDigit {c : Char} (digit : c.isDigit = true) : isBlank c = false := by
  have bounds := Decimal.toNat_of_isDigit digit
  simp [isBlank]
  omega

theorem dropBlanks_cons {c : Char} (plain : isBlank c = false) (rest : List Char) :
    dropBlanks (c :: rest) = c :: rest := by
  rw [dropBlanks,List.dropWhile_cons,plain]
  rfl

namespace Instant
open Decimal

-- What may be written: a day of the years that there are, and more than a second of nanoseconds
-- only in the last second of a minute.
def Proper (t : Instant) : Prop :=
  (Date.firstYear ≤ (Date.ofDays (t.seconds / secondsPerDay)).year ∧
    (Date.ofDays (t.seconds / secondsPerDay)).year ≤ Date.lastYear) ∧
  t.nanos < 2000000000 ∧ (1000000000 ≤ t.nanos → t.seconds % 60 = 59)

instance (t : Instant) : Decidable t.Proper := inferInstanceAs (Decidable (_ ∧ _))

section Numbers
variable {ds rest : List Char} {c : Char} {most : Nat}

theorem readNumber_append (digits : ∀ d ∈ ds, d.isDigit = true) (some_ : ds ≠ [])
    (fits : ds.length ≤ most) (stops : c.isDigit = false) :
    readNumber most (ds ++ c :: rest) = some (value ds,c :: rest) := by
  have taken : ((ds ++ c :: rest).take most).takeWhile Char.isDigit = ds := by
    rw [List.take_append,List.take_of_length_le fits,List.takeWhile_append_of_pos digits]
    cases most - ds.length with
    | zero => simp
    | succ n => simp [stops]
  unfold readNumber
  rw [taken]
  cases ds with
  | nil => exact absurd rfl some_
  | cons d others =>
    dsimp only
    rw [List.drop_left]

theorem padded_cons (width n : Nat) :
    ∃ d others, padded width n = d :: others ∧ d.isDigit = true := by
  cases is : padded width n with
  | nil => exact absurd is (padded_ne_nil width n)
  | cons d others => exact ⟨d,others,rfl,isDigit_of_mem_padded (is ▸ List.mem_cons_self)⟩

theorem dropBlanks_padded (width n : Nat) (rest : List Char) :
    dropBlanks (padded width n ++ rest) = padded width n ++ rest := by
  obtain ⟨d,others,is,digit⟩ := padded_cons width n
  rw [is]
  exact dropBlanks_cons (isBlank_of_isDigit digit) _

theorem readTwo_padded {n : Nat} (fits : n < 100) (stops : c.isDigit = false) :
    readTwo (padded 2 n ++ c :: rest) = some (n,c :: rest) := by
  have length : (padded 2 n).length = 2 := length_padded (by decide) fits
  rw [readTwo,dropBlanks_padded,
    readNumber_append (fun _ => isDigit_of_mem_padded) (padded_ne_nil 2 n) (Nat.le_of_eq length) stops,value_padded]

theorem readMark_cons {mark : Char} (plain : isBlank mark = false) :
    readMark mark (mark :: rest) = some rest := by
  rw [readMark,dropBlanks_cons plain]
  exact if_pos rfl

theorem readYear_signed {sign : Char} {n : Nat} (signed : sign = '-' ∨ sign = '+') :
    readYear (sign :: (padded 4 n ++ '-' :: rest)) =
      some (if sign = '-' then -(n : Int) else n,'-' :: rest) := by
  have read : ∀ most, (padded 4 n).length ≤ most →
      readNumber most (padded 4 n ++ '-' :: rest) = some (n,'-' :: rest) := by
    intro most fits
    rw [readNumber_append (fun _ => isDigit_of_mem_padded) (padded_ne_nil 4 n) fits rfl,value_padded]
  have fits : (padded 4 n).length ≤ (padded 4 n ++ '-' :: rest).length := by simp
  rcases signed with rfl | rfl
  · rw [readYear,dropBlanks_cons rfl]
    simp only [read _ fits]
    rfl
  · rw [readYear,dropBlanks_cons rfl]
    simp only [read _ fits]
    rfl

theorem readYear_plain {n : Nat} (fits : n < 10000) :
    readYear (padded 4 n ++ '-' :: rest) = some ((n : Int),'-' :: rest) := by
  have length : (padded 4 n).length = 4 := length_padded (by decide) fits
  have read : readNumber 4 (padded 4 n ++ '-' :: rest) = some (n,'-' :: rest) := by
    rw [readNumber_append (fun _ => isDigit_of_mem_padded) (padded_ne_nil 4 n)
      (Nat.le_of_eq length) rfl,value_padded]
  obtain ⟨d,others,is,digit⟩ := padded_cons 4 n
  unfold readYear
  rw [dropBlanks_padded]
  rw [is] at read ⊢
  -- a digit is no sign
  split
  · rename_i starts
    cases starts
    cases digit
  · rename_i starts
    cases starts
    cases digit
  · rw [read]
    rfl

theorem readYear_yearText (year : Int) :
    readYear (yearText year ++ '-' :: rest) = some (year,'-' :: rest) := by
  unfold yearText
  split
  · rw [readYear_plain (by omega)]
    congr 2
    omega
  · rw [List.cons_append,readYear_signed (by split <;> simp)]
    congr 2
    split
    · rw [if_pos rfl]
      omega
    · rw [if_neg (by decide)]
      omega

end Numbers

section Fractions
variable {rest : List Char}

theorem readFraction_point {width n : Nat} (some_ : 0 < width) (short : width ≤ 9)
    (fits : n < Nat.pow 10 width) :
    readFraction ('.' :: (padded width n ++ 'Z' :: rest)) =
      some (Nat.pow 10 (9 - width) * n,'Z' :: rest) := by
  have length : (padded width n).length = width := length_padded some_ fits
  have digits : ∀ d ∈ padded width n, d.isDigit = true := fun _ => isDigit_of_mem_padded
  have taken : ((padded width n ++ 'Z' :: rest).takeWhile Char.isDigit).take 9 = padded width n := by
    rw [List.takeWhile_append_of_pos digits,List.takeWhile_cons_of_neg (by decide),List.append_nil,
      List.take_of_length_le (by omega)]
  have left : (padded width n ++ 'Z' :: rest).dropWhile Char.isDigit = 'Z' :: rest := by
    rw [List.dropWhile_append_of_pos digits,List.dropWhile_cons_of_neg (by decide)]
  have worth : value ((padded width n).rightpad 9 '0') = Nat.pow 10 (9 - width) * n := by
    rw [List.rightpad,value_append,List.length_replicate,value_replicate_zero,value_padded,length]
    rfl
  obtain ⟨d,others,is,_⟩ := padded_cons width n
  rw [is] at taken left worth ⊢
  simp only [readFraction,taken,worth,left]

theorem readFraction_fractionText {nanos : Nat} (fits : nanos < 1000000000) :
    readFraction (fractionText nanos ++ 'Z' :: rest) = some (nanos,'Z' :: rest) := by
  unfold fractionText
  split
  · rename_i none
    rw [none]
    rfl
  · split
    · rw [List.cons_append,readFraction_point (by decide) (by decide) (by
        show _ < 1000
        omega)]
      congr 2
      show 1000000 * _ = _
      omega
    · split
      · rw [List.cons_append,readFraction_point (by decide) (by decide) (by
          show _ < 1000000
          omega)]
        congr 2
        show 1000 * _ = _
        omega
      · rw [List.cons_append,readFraction_point (by decide) (by decide) fits]
        congr 2
        exact Nat.one_mul _

theorem fraction_lt {cs : List Char} {nanos : Nat}
    (read : readFraction cs = some (nanos,rest)) : nanos < 1000000000 := by
  unfold readFraction at read
  split at read
  · rename_i ds
    have digits : ∀ c ∈ ((ds.takeWhile Char.isDigit).take 9).rightpad 9 '0', c.isDigit = true := by
      intro c member
      rcases List.mem_append.mp member with digit | zero
      · exact List.mem_takeWhile_imp (List.mem_of_mem_take digit)
      · rw [List.eq_of_mem_replicate zero]
        rfl
    have length : (((ds.takeWhile Char.isDigit).take 9).rightpad 9 '0').length = 9 := by
      simp only [List.rightpad,List.length_append,List.length_take,List.length_replicate]
      omega
    have bound := value_lt digits
    rw [length] at bound
    split at read
    · cases read
    · cases read
      exact bound
  · cases read
    decide

end Fractions

section Parts
variable {date : Date} {hour minute second nanos : Nat} {offset : Int} {t : Instant}

theorem proper_of_parts (fraction : nanos < 1000000000)
    (made : ofParts date hour minute second nanos offset = some t) : t.Proper := by
  unfold ofParts at made
  split at made
  · rename_i fields
    dsimp only at made
    split at made
    · rename_i years
      cases made
      refine ⟨years,?_,?_⟩
      · dsimp only
        omega
      · intro leaps
        dsimp only [secondsPerDay] at leaps ⊢
        omega
    · cases made
  · cases made

theorem ofParts_of_proper (proper : t.Proper) :
    ofParts (Date.ofDays (t.seconds / secondsPerDay))
      ((t.seconds % secondsPerDay).toNat / 3600) ((t.seconds % secondsPerDay).toNat / 60 % 60)
      ((t.seconds % secondsPerDay).toNat % 60 + t.nanos / 1000000000) (t.nanos % 1000000000) 0 =
      some t := by
  obtain ⟨years,short,leaps⟩ := proper
  simp only [secondsPerDay] at years ⊢
  obtain ⟨valid,counts⟩ := Date.ofDays_spec (t.seconds / 86400)
  obtain ⟨day,same⟩ : ∃ day : Nat, t.seconds % 86400 = day :=
    Int.eq_ofNat_of_zero_le (Int.emod_nonneg _ (by decide))
  -- a leap second is the sixtieth of its minute
  have late : 1000000000 ≤ t.nanos → day % 60 = 59 := by omega
  rw [same,Int.toNat_natCast]
  unfold ofParts
  rw [if_pos ⟨valid,years.1,years.2,by omega,by omega,by omega,by decide⟩]
  dsimp only
  rw [counts]
  have seconds : t.seconds / 86400 * secondsPerDay + ↑(day / 3600) * 3600 +
      ↑(day / 60 % 60) * 60 + (↑(day % 60 + t.nanos / 1000000000) -
        ↑((day % 60 + t.nanos / 1000000000) / 60)) - 0 * 60 = t.seconds := by
    simp only [secondsPerDay]
    omega
  have nanos : t.nanos % 1000000000 + (day % 60 + t.nanos / 1000000000) / 60 * 1000000000 =
      t.nanos := by
    omega
  rw [seconds,nanos]
  exact if_pos years

end Parts

theorem monthLength_le (year : Int) (i : Nat) : (Date.monthLengths year).getD i 0 ≤ 31 := by
  have all : ∀ length ∈ Date.monthLengths year, length ≤ 31 := by
    unfold Date.monthLengths
    cases Date.isLeap year <;> decide
  rw [List.getD_eq_getElem?_getD]
  cases found : (Date.monthLengths year)[i]? with
  | none => exact Nat.zero_le _
  | some length => exact all length (List.mem_of_getElem? found)

def readTime (date : Date) (cs : List Char) : Option Instant := do
  let (hour,cs) ← readTwo cs
  let cs ← readMark ':' cs
  let (minute,cs) ← readTwo cs
  let cs ← readMark ':' cs
  let (second,cs) ← readTwo cs
  let (nanos,cs) ← readFraction cs
  let (offset,cs) ← readOffset (dropBlanks cs)
  if (dropBlanks cs).isEmpty then ofParts date hour minute second nanos offset else none

theorem read_eq (cs : List Char) : read cs = (do
    let (year,cs) ← readYear cs
    let cs ← readMark '-' cs
    let (month,cs) ← readTwo cs
    let cs ← readMark '-' cs
    let (day,cs) ← readTwo cs
    match cs with
    | 'T' :: cs | 't' :: cs | ' ' :: cs => readTime ⟨year,month,day⟩ cs
    | _ => none) := by
  unfold read
  simp only [Option.bind_eq_bind]
  congr! 12

theorem proper_of_readTime {date : Date} {cs : List Char} {t : Instant}
    (made : readTime date cs = some t) : t.Proper := by
  simp only [readTime,Option.bind_eq_bind,Option.bind_eq_some_iff] at made
  obtain ⟨hour,_,_,_,minute,_,_,_,second,_,⟨nanos,_⟩,fraction,offset,_,made⟩ := made
  split at made
  · exact proper_of_parts (fraction_lt fraction) made
  · cases made

theorem proper_of_read {cs : List Char} {t : Instant} (made : read cs = some t) : t.Proper := by
  simp only [read_eq,Option.bind_eq_bind,Option.bind_eq_some_iff] at made
  obtain ⟨year,_,_,_,month,_,_,_,day,_,made⟩ := made
  split at made
  · exact proper_of_readTime made
  · exact proper_of_readTime made
  · exact proper_of_readTime made
  · cases made

theorem fractionText_stops (nanos : Nat) (rest : List Char) :
    ∃ c others, fractionText nanos ++ 'Z' :: rest = c :: others ∧ c.isDigit = false := by
  unfold fractionText
  split
  · exact ⟨'Z',rest,rfl,rfl⟩
  · split
    · exact ⟨'.',_,rfl,rfl⟩
    · split
      · exact ⟨'.',_,rfl,rfl⟩
      · exact ⟨'.',_,rfl,rfl⟩

theorem readTime_print {date : Date} {hour minute second nanos : Nat} (hours : hour < 24)
    (minutes : minute < 60) (seconds : second ≤ 60) (fraction : nanos < 1000000000) :
    readTime date (padded 2 hour ++ ':' :: (padded 2 minute ++ ':' ::
      (padded 2 second ++ (fractionText nanos ++ ['Z'])))) =
        ofParts date hour minute second nanos 0 := by
  have behind : readFraction (fractionText nanos ++ ['Z']) = some (nanos,['Z']) :=
    readFraction_fractionText fraction
  obtain ⟨c,others,is,stops⟩ := fractionText_stops nanos []
  rw [is] at behind ⊢
  simp only [readTime,Option.bind_eq_bind,Option.bind_some,
    readTwo_padded (show hour < 100 by omega) (show (':').isDigit = false from rfl),
    readTwo_padded (show minute < 100 by omega) (show (':').isDigit = false from rfl),
    readTwo_padded (show second < 100 by omega) stops,
    readMark_cons (show isBlank ':' = false from rfl),behind]
  rfl

theorem read_print {t : Instant} (proper : t.Proper) : read t.print = some t := by
  obtain ⟨valid,-⟩ := Date.ofDays_spec (t.seconds / secondsPerDay)
  have again := ofParts_of_proper proper
  obtain ⟨_,short,_⟩ := proper
  have leap : t.nanos / 1000000000 ≤ 1 := by omega
  have within : (t.seconds % secondsPerDay).toNat < 86400 := by
    simp only [secondsPerDay]
    omega
  simp only [print]
  generalize Date.ofDays (t.seconds / secondsPerDay) = date at valid again ⊢
  generalize (t.seconds % secondsPerDay).toNat = second at within again ⊢
  have length := monthLength_le date.year (date.month - 1)
  obtain ⟨_,month,_,day⟩ := valid
  have hyphen : isBlank '-' = false := rfl
  have ends : ('-').isDigit = false := rfl
  have ends' : ('T').isDigit = false := rfl
  simp only [List.append_assoc,List.cons_append,read_eq,readYear_yearText,
    Option.bind_eq_bind,Option.bind_some,readMark_cons hyphen,
    readTwo_padded (show date.month < 100 by omega) ends,
    readTwo_padded (show date.day < 100 by omega) ends']
  rw [readTime_print (by omega) (by omega) (by omega) (by omega)]
  exact again

-- The instants that can be read are the proper ones.
theorem readable_iff {t : Instant} : (∃ cs, read cs = some t) ↔ t.Proper :=
  ⟨fun ⟨_,made⟩ => proper_of_read made,fun proper => ⟨_,read_print proper⟩⟩

end Instant
end DoubleEntry
