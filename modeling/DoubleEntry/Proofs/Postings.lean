import Mathlib.Algebra.Ring.Int.Defs
import DoubleEntry.Proofs.CallHistories

namespace DoubleEntry

def Transfer.movement (t : Transfer) : Movement := ⟨t.source,t.destination,t.amount⟩

def Movement.lines (m : Movement) : List (AccountId × Int) :=
  [(m.source,-m.amount),(m.destination,m.amount)]

structure Posting where
  job : Nat
  attempt : Nat
  movement : Movement
deriving DecidableEq, Repr

namespace Turn

def opened (t : Turn) : List Account :=
  match t.move with
  | .createAccount owner currency balance =>
    [(t.before.ledger.createAccount owner currency balance (.ofMillis t.before.clock)).2]
  | _ => []

def posting? (t : Turn) : Option Posting :=
  match t.move with
  | .step i =>
    if t.Changes then
      t.before.jobs[i]?.bind fun j => j.stage.call?.map fun a => ⟨i,a,j.plan.movement⟩
    else none
  | _ => none

inductive Enters (t : Turn) : Prop where
  | opens {account : Account} (opened : t.opened = [account]) (posting : t.posting? = none)
      (numbered : account.id = t.before.ledger.rows.length + 1)
      (accounts : t.after.ledger.books.accounts = t.before.ledger.books.accounts ++ [account])
      (entries : t.after.ledger.entries = t.before.ledger.entries)
      (transfers : t.after.ledger.transfers = t.before.ledger.transfers)
      (committed : t.after.ledger.committed = t.before.ledger.committed)
  | keeps (opened : t.opened = []) (posting : t.posting? = none)
      (books : t.after.ledger.books = t.before.ledger.books)
      (committed : t.after.ledger.committed = t.before.ledger.committed)
  | posts {p : Posting} {r : Receipt} (opened : t.opened = []) (posting : t.posting? = some p)
      (writes : Job.Writes p.movement r t.before.ledger t.after.ledger)

theorem posting?_eq_some {t : Turn} {p : Posting} : t.posting? = some p ↔
    t.move = .step p.job ∧ t.Changes ∧
      ∃ j, t.before.jobs[p.job]? = some j ∧ j.stage.call? = some p.attempt ∧
        j.plan.movement = p.movement := by
  unfold posting?
  constructor
  · intro posted
    split at posted
    · rename_i i move
      split at posted
      · rename_i changes
        obtain ⟨j,found,here⟩ := Option.bind_eq_some_iff.mp posted
        obtain ⟨a,call,same⟩ := Option.map_eq_some_iff.mp here
        subst same
        exact ⟨move,changes,j,found,call,rfl⟩
      · cases posted
    · cases posted
  · rintro ⟨move,changes,j,found,call,same⟩
    simp only [move,if_pos changes,found,Option.bind_some,call,Option.map_some,same]

theorem call?_of_posting {t : Turn} {p : Posting} (posting : t.posting? = some p) :
    t.call? p.job = some p.attempt ∧ t.Changes := by
  obtain ⟨move,changes,j,found,call,_⟩ := posting?_eq_some.mp posting
  have own : t.move.job? = some p.job := by rw [move]; rfl
  exact ⟨call?_eq_some.mpr ⟨own,Bank.call?_eq_some.mpr ⟨j,found,call⟩⟩,changes⟩

theorem posting?_of_quiet {t : Turn} (quiet : t.before.ledger.Quiet t.after.ledger) :
    t.posting? = none := by
  cases posting : t.posting? with
  | none => rfl
  | some p => exact absurd (call?_of_posting posting).2 (not_changes_of_quiet quiet)

theorem enters {before after : Bank} {move : Move} (advances : before.Advances move after)
    (transferring : move.Transferring) : Enters ⟨before,move,after⟩ := by
  cases advances with
  | opens =>
    refine .opens rfl rfl rfl ?_ rfl rfl rfl
    simp [Ledger.books,Ledger.createAccount]
  | arranges arranging _ books committed =>
    refine .keeps ?_ ?_ books committed
    · cases move <;> first | rfl | cases arranging
    · cases move <;> first | rfl | cases arranging
  | launches => exact .keeps rfl rfl rfl rfl
  | aborts _ _ _ quiet => exact .keeps rfl rfl quiet.books quiet.committed
  | byHand hand => exact absurd transferring hand
  | @steps i j j' l' found moves =>
    have posted {r : Receipt} {n d : Nat} {tx : Option TxId} {w : Option Wait}
        (stage : j.stage = .running n tx d (.committing r) w)
        (writes : Job.Writes j.plan.movement r before.ledger l') :
        Enters ⟨before,.step i,{ before with ledger := l', jobs := before.jobs.set i j' }⟩ := by
      refine .posts (p := ⟨i,n,j.plan.movement⟩) rfl ?_ writes
      exact posting?_eq_some.mpr
        ⟨rfl,changes_of_writes writes,j,found,by rw [stage]; rfl,rfl⟩
    cases moves.does with
    | quietly quiet => exact .keeps rfl (posting?_of_quiet quiet) quiet.books quiet.committed
    | writes stage writes => exact posted stage writes
    | unacknowledged stage writes => exact posted stage writes

end Turn

def openings (history : List Turn) : List Account := history.flatMap Turn.opened

def postings (history : List Turn) : List Posting := history.filterMap Turn.posting?

def Transferring (history : List Turn) : Prop := ∀ t ∈ history, t.move.Transferring

theorem Transferring.earlier {earlier later : List Turn}
    (transferring : Transferring (earlier ++ later)) : Transferring earlier :=
  fun t member => transferring t (List.mem_append_left later member)

def moved (posted : List Posting) (id : AccountId) : Int :=
  (posted.map (·.movement.change id)).sum

theorem moved_untouched {posted : List Posting} {id : AccountId}
    (untouched : ∀ p ∈ posted, id ≠ p.movement.source ∧ id ≠ p.movement.destination) :
    moved posted id = 0 := by
  induction posted with
  | nil => rfl
  | cons p rest ih =>
    obtain ⟨source,destination⟩ := untouched p (by simp)
    have here : p.movement.change id = 0 := by simp [Movement.change,source,destination]
    have later := ih fun q member => untouched q (by simp [member])
    change p.movement.change id + moved rest id = 0
    rw [here,later]
    rfl

theorem openings_append (earlier later : List Turn) :
    openings (earlier ++ later) = openings earlier ++ openings later :=
  List.flatMap_append

theorem postings_append (earlier later : List Turn) :
    postings (earlier ++ later) = postings earlier ++ postings later :=
  List.filterMap_append

theorem openings_snoc (history : List Turn) (t : Turn) :
    openings (history ++ [t]) = openings history ++ t.opened := by
  simp [openings]

theorem postings_snoc (history : List Turn) (t : Turn) :
    postings (history ++ [t]) = postings history ++ t.posting?.toList := by
  rw [postings_append]
  congr 1

namespace Ledger

theorem balances_books (l : Ledger) :
    l.balances = l.books.accounts.map fun a => (a.id,a.balance) := by
  rw [books,List.map_map]
  rfl

theorem mem_balances_of_account? {l : Ledger} {id : AccountId} (found : l.account? id = some a) :
    (id,a.balance) ∈ l.balances := by
  obtain ⟨r,row,rfl⟩ := Option.map_eq_some_iff.mp found
  have member :=
    List.mem_map_of_mem (f := fun r : Row => (r.id,r.account.balance)) (mem_of_row? row)
  rwa [id_of_row? row] at member

theorem Sound.le_of_mem_balances {l : Ledger} (sound : l.Sound) (member : pair ∈ l.balances) :
    pair.1 ≤ l.rows.length := by
  obtain ⟨r,row,rfl⟩ := List.mem_map.mp member
  obtain ⟨n,found⟩ := List.mem_iff_getElem?.mp row
  have bound := (List.getElem?_eq_some_iff.mp found).1
  have place : r.id = (n : Int) + 1 := sound.numbered n r found
  have here : (n : Int) + 1 ≤ (l.rows.length : Int) := by omega
  exact place ▸ here

theorem Sound.nodup {l : Ledger} (sound : l.Sound) : (l.balances.map Prod.fst).Nodup := by
  rw [Ledger.balances,List.map_map,List.nodup_iff_pairwise_ne,List.pairwise_map,
    List.pairwise_iff_getElem]
  intro m n first second earlier same
  have one := sound.numbered m _ (List.getElem?_eq_getElem first)
  have two := sound.numbered n _ (List.getElem?_eq_getElem second)
  have alike : (m : Int) + 1 = (n : Int) + 1 := one.symm.trans (same.trans two)
  omega

end Ledger

-- The invariant of every run: the books hold what was posted, and nothing else.
structure Posted (history : List Turn) (b : Bank) : Prop where
  transfers : b.ledger.transfers.map Transfer.movement = (postings history).map Posting.movement
  entries : b.ledger.entries.map (fun e => (e.account,e.amount)) =
    (postings history).flatMap (·.movement.lines)
  committed : b.ledger.committed = (postings history).length
  balances : b.ledger.balances =
    (openings history).map fun o => (o.id,o.balance + moved (postings history) o.id)
  known : ∀ p ∈ postings history, p.movement.source ∈ (openings history).map Account.id ∧
    p.movement.destination ∈ (openings history).map Account.id
  checked : ∀ p ∈ postings history, p.movement.check = .ok ()

namespace Posted
variable {history : List Turn} {b : Bank} {t : Turn}

theorem ids (posted : Posted history b) :
    b.ledger.balances.map Prod.fst = (openings history).map Account.id := by
  rw [posted.balances,List.map_map]
  rfl

theorem distinct (posted : Posted history b) (sound : b.Sound) :
    ((openings history).map Account.id).Nodup :=
  posted.ids ▸ sound.ledger.nodup

theorem untouched {account : Account} (posted : Posted history b) (sound : b.Sound)
    (numbered : account.id = b.ledger.rows.length + 1) :
    moved (postings history) account.id = 0 := by
  have unknown : account.id ∉ (openings history).map Account.id := by
    rw [← posted.ids]
    intro member
    obtain ⟨pair,listed,same⟩ := List.mem_map.mp member
    have bound : (b.ledger.rows.length : Int) + 1 ≤ b.ledger.rows.length :=
      numbered ▸ same ▸ sound.ledger.le_of_mem_balances listed
    omega
  apply moved_untouched
  intro p member
  obtain ⟨source,destination⟩ := posted.known p member
  exact ⟨fun same => unknown (same ▸ source),fun same => unknown (same ▸ destination)⟩

theorem opens (posted : Posted history t.before) (sound : t.before.Sound)
    (opened : t.opened = [account]) (posting : t.posting? = none)
    (numbered : account.id = t.before.ledger.rows.length + 1)
    (accounts : t.after.ledger.books.accounts = t.before.ledger.books.accounts ++ [account])
    (entries : t.after.ledger.entries = t.before.ledger.entries)
    (transfers : t.after.ledger.transfers = t.before.ledger.transfers)
    (committed : t.after.ledger.committed = t.before.ledger.committed) :
    Posted (history ++ [t]) t.after := by
  have opened' : openings (history ++ [t]) = openings history ++ [account] := by
    rw [openings_snoc,opened]
  have posted' : postings (history ++ [t]) = postings history := by
    rw [postings_snoc,posting]
    exact List.append_nil _
  have untouched := posted.untouched sound numbered
  refine ⟨?_,?_,?_,?_,?_,posted'.symm ▸ posted.checked⟩
  · rw [transfers,posted',posted.transfers]
  · rw [entries,posted',posted.entries]
  · rw [committed,posted',posted.committed]
  · rw [Ledger.balances_books,accounts,List.map_append,← Ledger.balances_books,posted.balances,
      opened',posted',List.map_append]
    simp [untouched]
  · intro p member
    rw [posted'] at member
    rw [opened',List.map_append]
    obtain ⟨source,destination⟩ := posted.known p member
    exact ⟨List.mem_append_left _ source,List.mem_append_left _ destination⟩

theorem keeps (posted : Posted history t.before) (opened : t.opened = [])
    (posting : t.posting? = none) (books : t.after.ledger.books = t.before.ledger.books)
    (committed : t.after.ledger.committed = t.before.ledger.committed) :
    Posted (history ++ [t]) t.after := by
  have opened' : openings (history ++ [t]) = openings history := by
    rw [openings_snoc,opened,List.append_nil]
  have posted' : postings (history ++ [t]) = postings history := by
    rw [postings_snoc,posting]
    exact List.append_nil _
  have transfers : t.after.ledger.transfers = t.before.ledger.transfers :=
    congrArg Books.transfers books
  have entries : t.after.ledger.entries = t.before.ledger.entries := congrArg Books.entries books
  refine ⟨?_,?_,?_,?_,?_,posted'.symm ▸ posted.checked⟩
  · rw [transfers,posted',posted.transfers]
  · rw [entries,posted',posted.entries]
  · rw [committed,posted',posted.committed]
  · rw [Ledger.balances_books,books,← Ledger.balances_books,posted.balances,opened',posted']
  · rw [opened',posted']
    exact posted.known

theorem posts {p : Posting} {r : Receipt} (posted : Posted history t.before)
    (opened : t.opened = []) (posting : t.posting? = some p)
    (writes : Job.Writes p.movement r t.before.ledger t.after.ledger) :
    Posted (history ++ [t]) t.after := by
  have opened' : openings (history ++ [t]) = openings history := by
    rw [openings_snoc,opened,List.append_nil]
  have posted' : postings (history ++ [t]) = postings history ++ [p] := by
    rw [postings_snoc,posting]
    rfl
  have accounts : t.after.ledger.books.accounts =
      t.before.ledger.books.accounts.map p.movement.shift := congrArg Books.accounts writes.books
  have balances : t.after.ledger.balances =
      t.before.ledger.balances.map fun pair => (pair.1,pair.2 + p.movement.change pair.1) := by
    rw [Ledger.balances_books,accounts,Ledger.balances_books,List.map_map,List.map_map]
    rfl
  have ids : t.after.ledger.balances.map Prod.fst = (openings history).map Account.id := by
    rw [balances,List.map_map,← posted.ids]
    rfl
  have listed {id : AccountId} {a : Account} (found : t.after.ledger.account? id = some a) :
      id ∈ (openings history).map Account.id :=
    ids ▸ List.mem_map_of_mem (Ledger.mem_balances_of_account? found)
  obtain ⟨source,destination,amount⟩ := writes.transfer
  refine ⟨?_,?_,?_,?_,?_,?_⟩
  · rw [writes.transfers,posted',List.map_append,List.map_append,posted.transfers]
    simp [Transfer.movement,source,destination,amount]
  · rw [writes.entries,posted',List.map_append,List.flatMap_append,posted.entries]
    simp [Movement.lines,writes.debit.1,writes.debit.2,writes.credit.1,writes.credit.2]
  · rw [writes.committed,posted',List.length_append,posted.committed]
    rfl
  · rw [balances,posted.balances,List.map_map,opened',posted']
    simp [moved,Int.add_assoc]
  · intro q member
    rw [opened']
    rw [posted',List.mem_append] at member
    rcases member with earlier | last
    · exact posted.known q earlier
    · cases List.mem_singleton.mp last
      exact ⟨listed writes.source,listed writes.destination⟩
  · intro q member
    rw [posted',List.mem_append] at member
    rcases member with earlier | last
    · exact posted.checked q earlier
    · cases List.mem_singleton.mp last
      exact writes.checked

end Posted

theorem runs_posted (runs : Runs {} history b) (transferring : Transferring history) :
    Posted history b := by
  refine runs.within (P := Posted) (M := Move.Transferring) transferring
    ⟨rfl,rfl,rfl,rfl,by simp [postings],by simp [postings]⟩ ?_
  intro history before move after _ _ sound advances now posted
  cases Turn.enters advances now with
  | opens opened posting numbered accounts entries transfers committed =>
    exact posted.opens sound opened posting numbered accounts entries transfers committed
  | keeps opened posting books committed => exact posted.keeps opened posting books committed
  | posts opened posting writes => exact posted.posts opened posting writes

end DoubleEntry
