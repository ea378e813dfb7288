import Mathlib.Algebra.BigOperators.Group.List.Basic
import Mathlib.Algebra.Ring.Int.Defs
import Mathlib.Data.List.Infix
import DoubleEntry.Proofs.Bank

namespace DoubleEntry
open Bigint

-- A sum of checked additions is there if and only if every sum on the way fits.
theorem foldlM_add? (numbers : List Int) (start total : Int) :
    numbers.foldlM add? start = some total ↔
      (∀ part, part <+: numbers → part ≠ [] → Fits (start + part.sum)) ∧
        total = start + numbers.sum := by
  induction numbers generalizing start with
  | nil => simp [eq_comm]
  | cons number rest ih =>
    rw [List.foldlM_cons,List.sum_cons,← Int.add_assoc]
    constructor
    · intro passed
      obtain ⟨next,added,passed⟩ := Option.bind_eq_some_iff.mp passed
      obtain ⟨fits,rfl⟩ := add?_eq_some.mp added
      obtain ⟨later,same⟩ := (ih _).mp passed
      refine ⟨?_,same⟩
      intro part front filled
      cases part with
      | nil => contradiction
      | cons first part =>
        obtain ⟨rfl,begins⟩ := List.cons_prefix_cons.mp front
        rw [List.sum_cons,← Int.add_assoc]
        by_cases empty : part = []
        · simpa [empty] using fits
        · exact later part begins empty
    · intro known
      obtain ⟨within,same⟩ := known
      have fits : Fits (start + number) := by
        simpa using within [number] (by simp) (List.cons_ne_nil _ _)
      refine Option.bind_eq_some_iff.mpr ⟨_,add?_eq_some.mpr ⟨fits,rfl⟩,(ih _).mpr ⟨?_,same⟩⟩
      intro part front _
      simpa [Int.add_assoc] using
        within (number :: part) (by simpa using front) (List.cons_ne_nil _ _)

namespace Ledger

def accounts (l : Ledger) : List Account := l.rows.map Row.account

def sumOf (accounts : List Account) : Int := (accounts.map Account.balance).sum

-- What is owned by all together, and what is owed.
def credit (accounts : List Account) : Int := sumOf (accounts.filter (0 < ·.balance))
def debt (accounts : List Account) : Int := sumOf (accounts.filter (·.balance < 0))

section Visiting
variable {accounts visited part : List Account} {a : Account} {total : Int}

@[simp] theorem sumOf_nil : sumOf [] = 0 := rfl

@[simp] theorem sumOf_cons : sumOf (a :: accounts) = a.balance + sumOf accounts := rfl

theorem credit_cons : credit (a :: accounts) = max a.balance 0 + credit accounts := by
  unfold credit
  by_cases owns : 0 < a.balance
  · simp [owns]
    omega
  · simp [owns]
    omega

theorem debt_cons : debt (a :: accounts) = min a.balance 0 + debt accounts := by
  unfold debt
  by_cases owes : a.balance < 0
  · simp [owes]
    omega
  · simp [owes]
    omega

theorem totalOf_eq_some :
    totalOf visited = some total ↔
      (∀ part, part <+: visited → Fits (sumOf part)) ∧ total = sumOf visited := by
  rw [totalOf,foldlM_add?]
  simp only [Int.zero_add]
  refine and_congr_left fun _ => ⟨?_,?_⟩
  · intro within part front
    by_cases empty : part = []
    · rw [empty]
      decide
    · exact within _ (front.map _) (by simpa using empty)
  · intro within part front _
    obtain ⟨part,begins,rfl⟩ := List.prefix_map_iff.mp front
    exact within part begins

-- On the way through the accounts the sum stays between what all owe and what all own.
theorem sumOf_bounds (front : part <+: visited) :
    debt visited ≤ sumOf part ∧ sumOf part ≤ credit visited := by
  induction visited generalizing part with
  | nil =>
    cases List.prefix_nil.mp front
    decide
  | cons a visited ih =>
    rw [credit_cons,debt_cons]
    cases part with
    | nil =>
      have bounds := ih List.nil_prefix
      rw [sumOf_nil] at bounds ⊢
      omega
    | cons b part =>
      obtain ⟨rfl,begins⟩ := List.cons_prefix_cons.mp front
      have bounds := ih begins
      rw [sumOf_cons]
      omega

theorem sumOf_perm (reordered : visited.Perm accounts) : sumOf visited = sumOf accounts :=
  (reordered.map _).sum_eq

theorem credit_perm (reordered : visited.Perm accounts) : credit visited = credit accounts :=
  sumOf_perm (reordered.filter _)

theorem debt_perm (reordered : visited.Perm accounts) : debt visited = debt accounts :=
  sumOf_perm (reordered.filter _)

end Visiting

-- Asked for in any order of the accounts, the total is the sum of the balances if it is answered
-- at all, and it is if and only if no sum on the way leaves the 64 bits. Every order answers it if
-- and only if the 64 bits hold both what is owned and what is owed.
theorem total_balance_checked (l : Ledger) :
    (∀ visited, visited.Perm l.accounts → ∀ total, totalOf visited = some total ↔
      (∀ part, part <+: visited → Fits (sumOf part)) ∧ total = (l.balances.map Prod.snd).sum) ∧
    ((∀ visited, visited.Perm l.accounts →
        totalOf visited = some (l.balances.map Prod.snd).sum) ↔
      Fits (credit l.accounts) ∧ Fits (debt l.accounts)) := by
  have whole : (l.balances.map Prod.snd).sum = sumOf l.accounts := by
    simp [balances,accounts,sumOf,Function.comp_def]
  have answered : ∀ visited, visited.Perm l.accounts → ∀ total, totalOf visited = some total ↔
      (∀ part, part <+: visited → Fits (sumOf part)) ∧
        total = (l.balances.map Prod.snd).sum := by
    intro visited reordered total
    rw [totalOf_eq_some,whole,sumOf_perm reordered]
  refine ⟨answered,?_,?_⟩
  · intro always
    have first : ∀ p : Account → Bool, Fits (sumOf (l.accounts.filter p)) := by
      intro p
      have reordered := List.filter_append_perm p l.accounts
      have within := ((answered _ reordered _).mp (always _ reordered)).1
      exact within _ (List.prefix_append _ _)
    exact ⟨first _,first _⟩
  · intro bounded visited reordered
    obtain ⟨owned,owed⟩ := bounded
    refine (answered visited reordered _).mpr ⟨fun part front => ?_,rfl⟩
    have bounds := sumOf_bounds front
    rw [credit_perm reordered,debt_perm reordered] at bounds
    exact ⟨Int.le_trans owed.1 bounds.1,Int.le_trans bounds.2 owned.2⟩

end Ledger

-- The sum fits, but on the way to it in the order of ids more is counted than fits.
def fortunes : List Move :=
  [.createAccount "alice" .usd greatest,.createAccount "bob" .usd 1,.createAccount "carol" .usd (-5)]

theorem fortunes_end : (Bank.replay {} fortunes).isSome = true := by decide +kernel

def fortunesRun : List Turn × Bank := (Bank.replay {} fortunes).get fortunes_end

theorem total_balance_checked_ordered :
    Runs {} fortunesRun.1 fortunesRun.2 ∧ fortunesRun.2.ledger.totalBalance = none ∧
      ∃ visited, visited.Perm fortunesRun.2.ledger.accounts ∧
        Ledger.totalOf visited = some (greatest - 4) := by
  have runs : Runs {} fortunesRun.1 fortunesRun.2 := runs_of_ends fortunes_end
  obtain ⟨answered,_⟩ := fortunesRun.2.ledger.total_balance_checked
  let ids := fortunesRun.2.ledger.accounts
  have reordered : (ids.take 1 ++ (ids.drop 1).reverse).Perm ids := by decide +kernel
  refine ⟨runs,?_,_,reordered,(answered _ reordered _).mpr ⟨?_,by decide +kernel⟩⟩
  · apply Option.eq_none_iff_forall_ne_some.mpr
    intro total given
    have within := ((answered _ (.refl _) total).mp given).1
    exact absurd (within (ids.take 2) (List.take_prefix 2 ids)) (by decide +kernel)
  · intro part front
    have bounded : ∀ part ∈ (ids.take 1 ++ (ids.drop 1).reverse).inits,
        Fits (Ledger.sumOf part) := by decide +kernel
    exact bounded part ((List.mem_inits _ _).mpr front)

def riches : List Move := [.createAccount "alice" .usd greatest,.createAccount "bob" .usd 1]

theorem riches_end : (Bank.replay {} riches).isSome = true := by decide +kernel

def richesRun : List Turn × Bank := (Bank.replay {} riches).get riches_end

-- Every balance is kept in 64 bits and the sum is a number, but no order of the accounts leads to it.
theorem total_balance_stops :
    Runs {} richesRun.1 richesRun.2 ∧
      (∀ balance ∈ richesRun.2.ledger.balances.map Prod.snd, Fits balance) ∧
      (richesRun.2.ledger.balances.map Prod.snd).sum = 9223372036854775808 ∧
      ∀ visited, visited.Perm richesRun.2.ledger.accounts → Ledger.totalOf visited = none := by
  refine ⟨runs_of_ends riches_end,by decide +kernel,by decide +kernel,?_⟩
  intro visited reordered
  apply Option.eq_none_iff_forall_ne_some.mpr
  intro total given
  have within := (Ledger.totalOf_eq_some.mp given).1 visited List.prefix_rfl
  rw [Ledger.sumOf_perm reordered] at within
  exact absurd within (by decide +kernel)

end DoubleEntry
