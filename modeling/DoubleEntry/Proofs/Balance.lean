import Mathlib.Algebra.BigOperators.Group.List.Basic
import Mathlib.Algebra.Ring.Int.Defs
import DoubleEntry.Proofs.Postings

namespace DoubleEntry

-- What the lines add to an account.
def drawn (lines : List (AccountId × Int)) (id : AccountId) : Int :=
  ((lines.filter (·.1 = id)).map Prod.snd).sum

theorem drawn_append (lines more : List (AccountId × Int)) (id : AccountId) :
    drawn (lines ++ more) id = drawn lines id + drawn more id := by
  simp [drawn]

theorem drawn_lines (m : Movement) (id : AccountId) : drawn m.lines id = m.change id := by
  have flip : ∀ seen, (id = seen) = (seen = id) := fun seen => propext eq_comm
  simp only [drawn,Movement.lines,Movement.change,List.filter_cons,List.filter_nil,flip]
  by_cases source : m.source = id <;> by_cases destination : m.destination = id <;>
    simp [source,destination]

theorem drawn_postings (posted : List Posting) (id : AccountId) :
    drawn (posted.flatMap (·.movement.lines)) id = moved posted id := by
  induction posted with
  | nil => rfl
  | cons p rest ih =>
    rw [List.flatMap_cons,drawn_append,drawn_lines,ih]
    rfl

theorem drawn_entries (entries : List Entry) (id : AccountId) :
    drawn (entries.map fun e => (e.account,e.amount)) id =
      ((entries.filter (·.account = id)).map (·.amount)).sum := by
  rw [drawn,List.filter_map,List.map_map]
  rfl

-- A movement between two of the accounts, or between none of them, changes nothing in their sum.
theorem sum_change {ids : List AccountId} (distinct : ids.Nodup) {m : Movement}
    (inside : m.source ∈ ids ↔ m.destination ∈ ids) : (ids.map m.change).sum = 0 := by
  have once (id : AccountId) (amount : Int) :
      (ids.map fun seen => if seen = id then amount else 0).sum =
        if id ∈ ids then amount else 0 := by
    rw [List.sum_map_ite_eq,distinct.count]
    by_cases member : id ∈ ids <;> simp [member]
  calc
    (ids.map m.change).sum =
        (ids.map fun id => if id = m.source then -m.amount else 0).sum +
          (ids.map fun id => if id = m.destination then m.amount else 0).sum := List.sum_map_add
    _ = (if m.source ∈ ids then -m.amount else 0) +
          if m.destination ∈ ids then m.amount else 0 := by rw [once,once]
    _ = 0 := by by_cases member : m.destination ∈ ids <;> simp [inside,member]

theorem sum_moved {ids : List AccountId} (distinct : ids.Nodup) {posted : List Posting}
    (inside : ∀ p ∈ posted, p.movement.source ∈ ids ↔ p.movement.destination ∈ ids) :
    (ids.map (moved posted)).sum = 0 := by
  induction posted with
  | nil =>
    have nothing : moved [] = fun _ => 0 := rfl
    rw [nothing]
    simp
  | cons p rest ih =>
    have here := inside p List.mem_cons_self
    have later := ih fun q member => inside q (List.mem_cons_of_mem p member)
    calc
      (ids.map (moved (p :: rest))).sum =
          (ids.map p.movement.change).sum + (ids.map (moved rest)).sum := List.sum_map_add
      _ = 0 := by rw [sum_change distinct here,later]; rfl

theorem Posted.sum_balances (posted : Posted history b) (sound : b.Sound) :
    (b.ledger.balances.map Prod.snd).sum = ((openings history).map Account.balance).sum := by
  have nothing := sum_moved (posted.distinct sound) fun p member =>
    iff_of_true (posted.known p member).1 (posted.known p member).2
  rw [List.map_map] at nothing
  calc
    (b.ledger.balances.map Prod.snd).sum =
        ((openings history).map fun o => o.balance + moved (postings history) o.id).sum := by
      rw [posted.balances,List.map_map]
      rfl
    _ = ((openings history).map Account.balance).sum +
          ((openings history).map fun o => moved (postings history) o.id).sum := List.sum_map_add
    _ = ((openings history).map Account.balance).sum := by
      rw [show ((openings history).map fun o => moved (postings history) o.id).sum = 0 from nothing]
      exact Int.add_zero _

theorem books_balance (runs : Runs {} history b) (transferring : Transferring history) :
    -- Two entries for each transfer, and no others.
    (b.ledger.entries.map fun e => (e.account,e.amount)).Perm
      (b.ledger.transfers.flatMap fun t => [(t.source,-t.amount),(t.destination,t.amount)]) ∧
    b.ledger.entries.length = 2 * b.ledger.transfers.length ∧
    b.ledger.transfers.length = b.ledger.committed ∧
    -- The accounts are those that were opened, each with its entries added.
    ((openings history).map Account.id).Nodup ∧
    b.ledger.balances = ((openings history).map fun o =>
      (o.id,o.balance + ((b.ledger.entries.filter (·.account = o.id)).map (·.amount)).sum)) ∧
    (b.ledger.balances.map Prod.snd).sum = ((openings history).map Account.balance).sum := by
  have posted := runs_posted runs transferring
  have sound := runs_sound runs
  have lines : (b.ledger.entries.map fun e => (e.account,e.amount)) =
      b.ledger.transfers.flatMap fun t => [(t.source,-t.amount),(t.destination,t.amount)] := by
    calc
      (b.ledger.entries.map fun e => (e.account,e.amount)) =
          ((postings history).map Posting.movement).flatMap Movement.lines := by
        rw [posted.entries,List.flatMap_map]
      _ = (b.ledger.transfers.map Transfer.movement).flatMap Movement.lines := by
        rw [posted.transfers]
      _ = b.ledger.transfers.flatMap fun t => t.movement.lines :=
        List.flatMap_map _ _ _
  refine ⟨.of_eq lines,?_,?_,posted.distinct sound,?_,posted.sum_balances sound⟩
  · have lengths := congrArg List.length lines
    rw [List.length_map] at lengths
    rw [lengths,List.length_flatMap]
    simp [Nat.mul_comm]
  · rw [posted.committed]
    simpa using congrArg List.length posted.transfers
  · rw [posted.balances]
    apply List.map_congr_left
    intro o _
    rw [← drawn_entries,posted.entries,drawn_postings]

theorem books_balance_contended :
    Runs {} contendedRun.1 contendedRun.2 ∧ Transferring contendedRun.1 ∧
      contendedRun.2.ledger.transfers.length = 6 ∧ contendedRun.2.ledger.entries.length = 2 * 6 ∧
      (contendedRun.2.ledger.balances.map Prod.snd).sum = 1800 := by
  have runs := runs_contended
  have transferring : Transferring contendedRun.1 := by
    unfold Transferring
    decide +kernel
  obtain ⟨_,entries,_,_,_,sum⟩ := books_balance runs transferring
  have six : contendedRun.2.ledger.transfers.length = 6 := by decide +kernel
  have opened : (openings contendedRun.1).map Account.balance = [1000,500,0,300,0] := by
    decide +kernel
  refine ⟨runs,transferring,six,six ▸ entries,?_⟩
  rw [sum,opened]
  rfl

end DoubleEntry
