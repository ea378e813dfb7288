import Mathlib.Algebra.BigOperators.Group.List.Basic
import Mathlib.Algebra.Ring.Int.Defs
import DoubleEntry.Proofs.Drafts
import DoubleEntry.Proofs.Postings

namespace DoubleEntry

namespace Turn

def granted (t : Turn) (tx : TxId) : List Update :=
  match t.callStep? with
  | some d => if d.tx = tx then d.granted else []
  | none => []

def applied? (t : Turn) : Option TxId :=
  t.callStep?.bind fun d =>
    if d.call = .commit ∧ t.after.ledger.committed = t.before.ledger.committed + 1 then some d.tx
    else none

variable {t : Turn} {tx : TxId}

theorem granted_of_mine (mine : ∀ d ∈ t.callStep?, d.tx = tx) :
    t.granted tx = t.callStep?.elim [] CallStep.granted := by
  unfold granted
  cases made : t.callStep? with
  | none => rfl
  | some d => simp [mine d made]

theorem granted_of_foreign (mine : ∀ d ∈ t.callStep?, d.tx = tx) {other : TxId}
    (foreign : other ≠ tx) :
    t.granted other = [] := by
  unfold granted
  cases made : t.callStep? with
  | none => rfl
  | some d =>
    have theirs : d.tx ≠ other := fun same => foreign (same.symm.trans (mine d made))
    simp [theirs]

theorem granted_of_nothing (nothing : t.callStep?.elim [] CallStep.granted = []) (tx : TxId) :
    t.granted tx = [] := by
  unfold granted
  cases made : t.callStep? with
  | none => rfl
  | some d =>
    rw [made] at nothing
    have none : d.granted = [] := nothing
    simp [none]

theorem applied?_of_same (same : t.after.ledger.committed = t.before.ledger.committed) :
    t.applied? = none := by
  have kept : t.after.ledger.committed ≠ t.before.ledger.committed + 1 := by omega
  unfold applied?
  cases t.callStep? <;> simp [kept]

-- The turn serves this transaction, and grants nothing to any other.
structure Belongs (t : Turn) (tx : TxId) : Prop where
  acts : t.before.ledger.Acts tx t.after.ledger
  unspent : t.before.ledger.Live tx ∨ tx = t.before.ledger.nextTx
  foreign : ∀ other, other ≠ tx → t.granted other = []
  born : t.before.ledger.begun ≤ tx → t.granted tx = []

theorem Belongs.spent (belongs : t.Belongs tx) (spent : t.before.Spent seen) :
    t.after.Spent seen :=
  Bank.spent_of_acts spent belongs.acts belongs.unspent

theorem Belongs.granted_of_spent (belongs : t.Belongs tx) (spent : t.before.Spent seen) :
    t.granted seen = [] :=
  belongs.foreign seen (Bank.ne_of_spent spent belongs.unspent)

end Turn

def granted (history : List Turn) (tx : TxId) : List Update := history.flatMap (·.granted tx)

def applied (history : List Turn) : List TxId := history.filterMap Turn.applied?

def contributed (history : List Turn) (id : AccountId) : Int :=
  ((applied history).map fun tx => Update.total (granted history tx) id).sum

theorem granted_snoc (history : List Turn) (t : Turn) (tx : TxId) :
    granted (history ++ [t]) tx = granted history tx ++ t.granted tx := by
  simp [granted]

theorem applied_snoc (history : List Turn) (t : Turn) :
    applied (history ++ [t]) = applied history ++ t.applied?.toList := by
  unfold applied
  rw [List.filterMap_append]
  congr 1

theorem applied_of_silent {t : Turn} (silent : t.applied? = none) (history : List Turn) :
    applied (history ++ [t]) = applied history := by
  rw [applied_snoc,silent]
  exact List.append_nil _

-- The invariant of every run: balances and drafts, as far as they were granted.
structure Reckoned (history : List Turn) (b : Bank) : Prop where
  drafts : ∀ tx, b.ledger.Live tx → b.ledger.Drafts tx (granted history tx)
  unborn : ∀ tx, b.ledger.begun ≤ tx → granted history tx = []
  known : ∀ tx, ∀ u ∈ granted history tx, ∃ a, b.ledger.account? u.account = some a
  accounts : b.ledger.books.accounts = (openings history).map fun o =>
    { o with balance := o.balance + contributed history o.id }
  once : (applied history).Nodup
  counted : (applied history).length = b.ledger.committed
  spent : ∀ tx ∈ applied history, b.Spent tx
  -- However else a transaction has ended, its commit was not applied.
  closed : ∀ t ∈ history, ∀ tx, t.before.ledger.Live tx → ¬t.after.ledger.Live tx →
    b.Spent tx ∧ (tx ∈ applied history ↔ t.applied? = some tx)

theorem Ledger.Sound.account?_next {l : Ledger} (sound : l.Sound) :
    l.account? (l.rows.length + 1) = none := by
  cases found : l.account? (l.rows.length + 1) with
  | none => rfl
  | some a =>
    have inside := sound.le_of_mem_balances (mem_balances_of_account? found)
    exact absurd inside (Int.not_le.mpr (Int.lt_succ _))

namespace Reckoned
variable {history : List Turn} {b : Bank} {t : Turn} {tx : TxId}

theorem contributed_absent (reckoned : Reckoned history b) {id : AccountId}
    (absent : b.ledger.account? id = none) : contributed history id = 0 := by
  refine List.sum_eq_zero fun amount listed => ?_
  obtain ⟨tx,_,rfl⟩ := List.mem_map.mp listed
  refine Update.total_untouched fun u member here => ?_
  obtain ⟨a,found⟩ := reckoned.known tx u member
  rw [here,absent] at found
  cases found

theorem settled (reckoned : Reckoned history t.before) (belongs : t.Belongs tx) :
    ∀ seen ∈ applied history, granted (history ++ [t]) seen = granted history seen := by
  intro seen member
  rw [granted_snoc,belongs.granted_of_spent (reckoned.spent seen member),List.append_nil]

theorem contributed_snoc (reckoned : Reckoned history t.before) (belongs : t.Belongs tx)
    (unapplied : t.applied? = none) (id : AccountId) :
    contributed (history ++ [t]) id = contributed history id := by
  unfold contributed
  rw [applied_of_silent unapplied]
  congr 1
  refine List.map_congr_left fun seen member => ?_
  rw [reckoned.settled belongs seen member]

theorem drafts_snoc (reckoned : Reckoned history t.before) (belongs : t.Belongs tx)
    (own : t.after.ledger.Live tx → t.after.ledger.Drafts tx (granted history tx ++ t.granted tx)) :
    ∀ seen, t.after.ledger.Live seen →
      t.after.ledger.Drafts seen (granted (history ++ [t]) seen) := by
  intro seen live
  rw [granted_snoc]
  by_cases mine : seen = tx
  · subst mine
    exact own live
  · have before := belongs.acts.live seen mine live
    rw [belongs.foreign seen mine,List.append_nil]
    exact (reckoned.drafts seen before).preserved (belongs.acts.preserves seen mine before)

theorem closed_snoc (reckoned : Reckoned history t.before) (sound : t.before.Sound)
    (belongs : t.Belongs tx)
    (applying : ∀ seen ∈ t.applied?, t.before.ledger.Live seen) :
    ∀ t' ∈ history ++ [t], ∀ seen, t'.before.ledger.Live seen → ¬t'.after.ledger.Live seen →
      t.after.Spent seen ∧ (seen ∈ applied (history ++ [t]) ↔ t'.applied? = some seen) := by
  intro t' member seen live gone
  rw [applied_snoc,List.mem_append,Option.mem_toList]
  rcases List.mem_append.mp member with earlier | last
  · obtain ⟨spent,iff⟩ := reckoned.closed t' earlier seen live gone
    refine ⟨belongs.spent spent,?_⟩
    rw [← iff]
    exact or_iff_left fun now => spent.1 (applying seen now)
  · cases List.mem_singleton.mp last
    refine ⟨⟨gone,Nat.lt_of_lt_of_le (sound.ledger.fresh seen live) belongs.acts.begun⟩,?_⟩
    exact or_iff_right fun old => (reckoned.spent seen old).1 live

theorem unborn_snoc (reckoned : Reckoned history t.before) (belongs : t.Belongs tx) :
    ∀ seen, t.after.ledger.begun ≤ seen → granted (history ++ [t]) seen = [] := by
  intro seen unborn
  have earlier := Nat.le_trans belongs.acts.begun unborn
  rw [granted_snoc,reckoned.unborn seen earlier,List.nil_append]
  by_cases mine : seen = tx
  · subst mine
    exact belongs.born earlier
  · exact belongs.foreign seen mine

theorem keeps (reckoned : Reckoned history t.before) (sound : t.before.Sound)
    (belongs : t.Belongs tx)
    (own : t.after.ledger.Live tx → t.after.ledger.Drafts tx (granted history tx ++ t.granted tx))
    (touched : ∀ u ∈ t.granted tx, ∃ a, t.after.ledger.account? u.account = some a)
    (accounts : t.after.ledger.books.accounts = t.before.ledger.books.accounts ++ t.opened)
    (fresh : ∀ o ∈ t.opened, t.before.ledger.account? o.id = none)
    (committed : t.after.ledger.committed = t.before.ledger.committed) :
    Reckoned (history ++ [t]) t.after := by
  have unapplied := Turn.applied?_of_same committed
  have applied' := applied_of_silent unapplied history
  have opening : (t.opened.map fun o =>
      { o with balance := o.balance + contributed history o.id }) = t.opened := by
    refine (List.map_congr_left fun o opened => ?_).trans (List.map_id _)
    rw [reckoned.contributed_absent (fresh o opened),Int.add_zero]
    rfl
  have still {id : AccountId} {a : Account} (found : t.before.ledger.account? id = some a) :
      t.after.ledger.account? id = some a := by
    rw [Ledger.account?_books] at found ⊢
    rw [accounts,List.find?_append,found,Option.some_or]
  refine ⟨reckoned.drafts_snoc belongs own,reckoned.unborn_snoc belongs,?_,?_,
    applied'.symm ▸ reckoned.once,?_,?_,?_⟩
  · intro seen u member
    rw [granted_snoc,List.mem_append] at member
    rcases member with old | new
    · obtain ⟨a,found⟩ := reckoned.known seen u old
      exact ⟨a,still found⟩
    · by_cases mine : seen = tx
      · exact touched u (mine ▸ new)
      · rw [belongs.foreign seen mine] at new
        cases new
  · simp only [reckoned.contributed_snoc belongs unapplied]
    rw [accounts,reckoned.accounts,openings_snoc,List.map_append,opening]
  · rw [applied',committed]
    exact reckoned.counted
  · intro seen member
    rw [applied'] at member
    exact belongs.spent (reckoned.spent seen member)
  · exact reckoned.closed_snoc sound belongs (by simp [unapplied])

theorem posts (reckoned : Reckoned history t.before) (sound : t.before.Sound)
    (live : t.before.ledger.Live tx) (closes : t.before.ledger.Closes tx t.after.ledger)
    (nothing : ∀ seen, t.granted seen = []) (applies : t.applied? = some tx)
    (opened : t.opened = [])
    (accounts : t.after.ledger.books.accounts =
      t.before.ledger.books.accounts.map (·.adding (granted history tx)))
    (committed : t.after.ledger.committed = t.before.ledger.committed + 1) :
    Reckoned (history ++ [t]) t.after := by
  have belongs : t.Belongs tx :=
    ⟨closes.acts,.inl live,fun other _ => nothing other,fun _ => nothing tx⟩
  have granted' : ∀ seen, granted (history ++ [t]) seen = granted history seen := by
    intro seen
    rw [granted_snoc,nothing,List.append_nil]
  have applied' : applied (history ++ [t]) = applied history ++ [tx] := by
    rw [applied_snoc,applies]
    rfl
  have more : ∀ id, contributed (history ++ [t]) id =
      contributed history id + Update.total (granted history tx) id := by
    intro id
    simp [contributed,applied',granted']
  have new : tx ∉ applied history := fun old => (reckoned.spent tx old).1 live
  refine ⟨reckoned.drafts_snoc belongs fun alive => absurd alive closes.gone,
    reckoned.unborn_snoc belongs,?_,?_,?_,?_,?_,?_⟩
  · intro seen u member
    rw [granted'] at member
    obtain ⟨a,found⟩ := reckoned.known seen u member
    refine ⟨a.adding (granted history tx),?_⟩
    rw [Ledger.account?_books] at found ⊢
    rw [accounts,List.find?_map]
    exact congrArg (Option.map _) found
  · rw [accounts,reckoned.accounts,openings_snoc,opened,List.append_nil,List.map_map]
    refine List.map_congr_left fun o _ => ?_
    rw [more,← Int.add_assoc]
    rfl
  · rw [applied',List.nodup_append]
    refine ⟨reckoned.once,by simp,?_⟩
    rintro seen old last member rfl
    cases List.mem_singleton.mp member
    exact new old
  · rw [applied',committed,List.length_append,reckoned.counted]
    rfl
  · intro seen member
    rw [applied',List.mem_append] at member
    rcases member with old | last
    · exact belongs.spent (reckoned.spent seen old)
    · cases List.mem_singleton.mp last
      exact ⟨closes.gone,Nat.lt_of_lt_of_le (sound.ledger.fresh tx live) closes.acts.begun⟩
  · refine reckoned.closed_snoc sound belongs ?_
    intro seen here
    cases Option.some.inj (applies.symm.trans here)
    exact live

theorem serves (reckoned : Reckoned history t.before) (sound : t.before.Sound)
    (opened : t.opened = []) (serves : t.before.ledger.Serves t.callStep? t.after.ledger) :
    Reckoned (history ++ [t]) t.after := by
  have fresh : ∀ o ∈ t.opened, t.before.ledger.account? o.id = none := by simp [opened]
  have same (books : t.after.ledger.books = t.before.ledger.books) :
      t.after.ledger.books.accounts = t.before.ledger.books.accounts ++ t.opened := by
    rw [books,opened,List.append_nil]
  cases serves with
  | opens acts books committed _ nothing drafts =>
    have none := Turn.granted_of_nothing nothing
    have belongs : t.Belongs t.before.ledger.nextTx :=
      ⟨acts,.inr rfl,fun other _ => none other,fun _ => none _⟩
    refine reckoned.keeps sound belongs ?_ (by simp [none]) (same books) fresh committed
    intro live
    have young : granted history t.before.ledger.nextTx = [] :=
      reckoned.unborn _ (Nat.le_refl _)
    rw [none,young]
    exact drafts live
  | @works tx live mine works =>
    have foreign : ∀ other, other ≠ tx → t.granted other = [] := fun _ =>
      Turn.granted_of_foreign mine
    have born : t.before.ledger.begun ≤ tx → t.granted tx = [] := fun unborn =>
      absurd (sound.ledger.fresh tx live) (Nat.not_lt.mpr unborn)
    have belongs (acts : t.before.ledger.Acts tx t.after.ledger) : t.Belongs tx :=
      ⟨acts,.inl live,foreign,born⟩
    have own := Turn.granted_of_mine mine
    generalize made : t.callStep? = callStep at mine works own
    cases works (granted history tx) (reckoned.drafts tx live) with
    | goesOn acts quiet _ drafts =>
      rw [← own] at drafts
      refine reckoned.keeps sound (belongs acts) (fun _ => drafts) ?_ (same quiet.books) fresh
        quiet.committed
      intro u member
      exact (drafts.holds u (List.mem_append_right _ member)).account?
    | closes closes quiet _ nothing =>
      rw [nothing] at own
      exact reckoned.keeps sound (belongs closes.acts) (fun alive => absurd alive closes.gone)
        (by simp [own]) (same quiet.books) fresh quiet.committed
    | posts closes asked nothing accounts committed =>
      have applies : t.applied? = some tx := by
        rw [Turn.applied?,made,Option.bind_some,if_pos ⟨asked,committed⟩,mine _ rfl]
      refine reckoned.posts sound live closes ?_ applies opened accounts committed
      exact Turn.granted_of_nothing (by rw [made]; exact nothing)

theorem opens {before : Bank} {owner : String} {currency : Currency} {balance : Int}
    (reckoned : Reckoned history before) (sound : before.Sound)
    (advanced : before.advance (.createAccount owner currency balance) = some after) :
    Reckoned (history ++ [⟨before,.createAccount owner currency balance,after⟩]) after := by
  cases Option.some.inj advanced
  have acts := Ledger.acts_createAccount sound.ledger owner currency balance
    (.ofMillis before.clock) before.ledger.nextTx
  refine reckoned.keeps sound ⟨acts,.inr rfl,fun _ _ => rfl,fun _ => rfl⟩ ?_ ?_ ?_ ?_ rfl
  · intro live
    exact absurd live (Ledger.not_live_nextTx acts.sound)
  · intro u member
    cases member
  · simp [Ledger.books,Ledger.createAccount,Turn.opened]
  · intro o opened
    cases List.mem_singleton.mp opened
    exact sound.ledger.account?_next

end Reckoned

section Running
variable {history : List Turn} {b : Bank}

theorem runs_reckoned (runs : Runs {} history b) : Reckoned history b := by
  refine (runs.kept (P := Reckoned) ?_ ?_).2
  · refine ⟨?_,fun _ _ => rfl,?_,rfl,List.nodup_nil,rfl,?_,?_⟩
    · rintro tx ⟨t,found⟩
      cases found
    · intro tx u member
      cases member
    · intro tx member
      cases member
    · intro t member
      cases member
  · intro history before move after _ sound advanced reckoned
    by_cases opening : ∃ owner currency balance, move = .createAccount owner currency balance
    · obtain ⟨owner,currency,balance,rfl⟩ := opening
      exact reckoned.opens sound advanced
    · have working : ∀ owner currency balance, move ≠ .createAccount owner currency balance :=
        fun owner currency balance same => opening ⟨owner,currency,balance,same⟩
      refine reckoned.serves (t := ⟨before,move,after⟩) sound ?_
        (Turn.serves sound advanced working)
      cases move <;> first | rfl | exact absurd rfl (working _ _ _)

theorem runs_acknowledged (runs : Runs {} history b) :
    ∀ t ∈ history, ∀ d ∈ t.callStep?, d.Acknowledged → t.applied? = some d.tx := by
  refine (runs.kept (P := fun history _ =>
    ∀ t ∈ history, ∀ d ∈ t.callStep?, d.Acknowledged → t.applied? = some d.tx) (by simp) ?_).2
  intro history before move after runs sound advanced earlier t member d made acknowledged
  rcases List.mem_append.mp member with old | new
  · exact earlier t old d made acknowledged
  · cases List.mem_singleton.mp new
    have working : ∀ owner currency balance, move ≠ .createAccount owner currency balance := by
      rintro owner currency balance rfl
      cases made
    have serves := Turn.serves sound advanced working
    generalize seen : (Turn.mk before move after).callStep? = callStep at made serves
    cases serves with
    | opens _ _ _ silent => exact absurd acknowledged (silent d made)
    | @works tx live mine works =>
      cases works _ ((runs_reckoned runs).drafts tx live) with
      | goesOn _ _ silent | closes _ _ silent => exact absurd acknowledged (silent d made)
      | posts _ asked _ _ committed =>
        cases made
        rw [Turn.applied?,seen,Option.bind_some,if_pos ⟨asked,committed⟩]

theorem no_update_lost (runs : Runs {} history b) :
    -- A row is held by one open transaction at most, and drafted by nobody else.
    (∀ tx other id, b.ledger.Holds tx id → b.ledger.Holds other id → tx = other) ∧
    (∀ tx id, b.ledger.Holds tx id → b.ledger.Live tx) ∧
    (∀ tx id a, b.ledger.draft? tx id = some a → b.ledger.Holds tx id) ∧
    -- The balances are the opening balances with all that was granted to the transactions whose
    -- commit was applied, each of them once, and nothing else.
    b.ledger.balances = ((openings history).map fun o => (o.id,o.balance +
      ((applied history).map fun tx => Update.total (granted history tx) o.id).sum)) ∧
    (applied history).Nodup ∧ (∀ tx, b.ledger.Live tx → tx ∉ applied history) ∧
    (∀ t ∈ history, ∀ d ∈ t.callStep?, d.Acknowledged → d.tx ∈ applied history) ∧
    (∀ t ∈ history, ∀ tx, t.before.ledger.Live tx → ¬t.after.ledger.Live tx →
      t.applied? ≠ some tx → tx ∉ applied history) ∧
    -- A transaction sees what is committed with its own changes added.
    ∀ tx id, b.ledger.Live tx → b.ledger.Holds tx id →
      ∃ a, b.ledger.account? id = some a ∧ b.ledger.getAccount tx id =
        .ok { a with balance := a.balance + Update.total (granted history tx) id } := by
  have sound := (runs_sound runs).ledger
  have reckoned := runs_reckoned runs
  refine ⟨?_,?_,?_,?_,reckoned.once,?_,?_,?_,?_⟩
  · intro tx other id held held'
    exact Ledger.Sound.holder_unique held held'
  · intro tx id held
    exact sound.seated id tx held.seated
  · intro tx id a drafted
    obtain ⟨t,found,_⟩ := Option.bind_eq_some_iff.mp drafted
    exact (reckoned.drafts tx ⟨t,found⟩).holds_of_draft? drafted
  · rw [Ledger.balances_books,reckoned.accounts,List.map_map]
    rfl
  · intro tx live member
    exact (reckoned.spent tx member).1 live
  · intro t member d made acknowledged
    exact List.mem_filterMap.mpr ⟨t,member,runs_acknowledged runs t member d made acknowledged⟩
  · intro t member tx live gone otherwise
    exact fun listed => otherwise ((reckoned.closed t member tx live gone).2.mp listed)
  · intro tx id live held
    obtain ⟨a,found⟩ := held.account?
    have named := Ledger.id_of_account? found
    have seen := (reckoned.drafts tx live).version? id
    rw [found,Option.map_some] at seen
    refine ⟨a,found,?_⟩
    rw [Ledger.getAccount,seen,← named]
    rfl

end Running

-- Four transactions run by hand and a transfer. The first adds to one account twice, in the reverse
-- order of the ids, and commits. The second waits for a row, drops the call in the delay after it
-- got it, calls again, fails once, and is rolled back. The third drops a call in the queue, calls
-- again and is still open. The commit of the fourth is refused.
def crossed : List Move :=
  [.createAccount "alice" .eur 1000,.createAccount "bob" .eur 500,.createAccount "carol" .eur 0,
    .begin,.begin,.begin,.begin,
    .call 0 (.addToBalance 2 40),.call 0 (.addToBalance 1 (-100)),.call 0 (.addToBalance 2 (-7)),
    .call 1 (.addToBalance 1 5),.call 2 (.addToBalance 1 9),.cancel 2,
    .call 3 (.addToBalance 3 11),.arm .commit (.unavailable "down"),.call 3 .commit,
    .setLockHold (some (.ofMillis 10)),.call 0 .commit,.resume 1,.cancel 1,.setLockHold none,
    .call 1 (.addToBalance 1 5),.call 1 (.addToBalance 1 9223372036854775807),
    .call 2 (.addToBalance 1 9),.call 1 .rollback,.resume 2,.call 2 (.addToBalance 1 (-2)),
    .launch { request := { source := 2, destination := 3, amount := 20 } },
    .step 0,.step 0,.step 0,.step 0,.step 0,.step 0,.step 0]

theorem crossed_ends : (Bank.replay {} crossed).isSome = true := by decide +kernel

def crossedRun : List Turn × Bank := (Bank.replay {} crossed).get crossed_ends

theorem no_update_lost_crossed :
    Runs {} crossedRun.1 crossedRun.2 ∧ applied crossedRun.1 = [0,4] ∧
      crossedRun.2.ledger.balances = [(1,900),(2,513),(3,20)] ∧
      granted crossedRun.1 3 = [⟨3,11⟩] ∧ crossedRun.2.ledger.Live 2 ∧ 2 ∉ applied crossedRun.1 ∧
      crossedRun.2.ledger.Holds 2 1 ∧
      ∃ a, crossedRun.2.ledger.account? 1 = some a ∧
        crossedRun.2.ledger.getAccount 2 1 = .ok { a with balance := a.balance + 7 } := by
  have runs : Runs {} crossedRun.1 crossedRun.2 := runs_of_ends crossed_ends
  obtain ⟨_,seated,_,balances,_,alive,_,_,sees⟩ := no_update_lost runs
  have held : crossedRun.2.ledger.Holds 2 1 := Ledger.holds_iff.mp (by decide +kernel)
  have live := seated 2 1 held
  refine ⟨runs,by decide +kernel,?_,by decide +kernel,live,alive 2 live,held,?_⟩
  · rw [balances]
    decide +kernel
  · obtain ⟨a,found,seen⟩ := sees 2 1 live held
    have total : Update.total (granted crossedRun.1 2) 1 = 7 := by decide +kernel
    rw [total] at seen
    exact ⟨a,found,seen⟩

end DoubleEntry
