import Mathlib.Data.List.Nodup
import DoubleEntry.Proofs.LostUpdates
import DoubleEntry.Proofs.Sheets

namespace DoubleEntry

def Ledger.read? (l : Ledger) : (s : Sheet) → Int → Option s.Row
  | .transfers => l.transfer?
  | .entries => l.entry?

-- The rows that were handed out in this turn, with the transaction that inserted them.
def Turn.handed (t : Turn) (s : Sheet) : List (TxId × s.Row) :=
  t.callStep?.elim [] fun d => (d.handed s).map (d.tx,·)

def Turn.handedTo (t : Turn) (tx : TxId) (s : Sheet) : List s.Row :=
  t.callStep?.elim [] fun d => if d.tx = tx then d.handed s else []

def handed (history : List Turn) (s : Sheet) : List (TxId × s.Row) := history.flatMap (·.handed s)

def handedTo (history : List Turn) (tx : TxId) (s : Sheet) : List s.Row :=
  ((handed history s).filter (·.1 = tx)).map Prod.snd

def Committed (history : List Turn) (s : Sheet) (row : s.Row) : Prop :=
  ∃ tx ∈ applied history, (tx,row) ∈ handed history s

section Handed
variable {history : List Turn} {tx : TxId}

theorem handed_snoc (history : List Turn) (t : Turn) (s : Sheet) :
    handed (history ++ [t]) s = handed history s ++ t.handed s := by
  simp [handed]

theorem handedTo_snoc (history : List Turn) (t : Turn) (tx : TxId) (s : Sheet) :
    handedTo (history ++ [t]) tx s = handedTo history tx s ++ t.handedTo tx s := by
  rw [handedTo,handed_snoc,List.filter_append,List.map_append,handedTo]
  congr 1
  rw [Turn.handed,Turn.handedTo]
  cases t.callStep? with
  | none => rfl
  | some d => by_cases mine : d.tx = tx <;> simp [List.filter_map,mine,Function.comp_def]

theorem mem_handedTo {s : Sheet} {row : s.Row} :
    row ∈ handedTo history tx s ↔ (tx,row) ∈ handed history s := by
  simp only [handedTo,List.mem_map,List.mem_filter,decide_eq_true_eq]
  constructor
  · rintro ⟨⟨tx',row'⟩,⟨member,rfl⟩,rfl⟩
    exact member
  · intro member
    exact ⟨(tx,row),⟨member,rfl⟩,rfl⟩

end Handed

theorem CallStep.handed_of_opening {d : CallStep} (opening : d.call = .begin) (s : Sheet) :
    d.handed s = [] := by
  obtain ⟨tx,call,progress⟩ := d
  subst opening
  cases s <;> rfl

theorem CallStep.handed_of_commit {d : CallStep} (asked : d.call = .commit) (s : Sheet) :
    d.handed s = [] := by
  obtain ⟨tx,call,progress⟩ := d
  subst asked
  cases s <;> rfl

-- Only an open transaction makes calls, but for the one that opens it.
theorem Job.live_of_callStep? {j : Job} {l : Ledger} (consistent : j.Consistent l)
    (made : j.callStep? now l = some d) :
    d.call = .begin ∨ l.Live d.tx := by
  unfold callStep? at made
  split at made
  · rename_i n tx due p w stage
    cases consistent _ _ _ _ _ stage with
    | opening checked =>
      cases Option.some.inj made
      exact .inl rfl
    | ended => cases made
    | inside checked rests view =>
      refine .inr ?_
      split at made
      · cases made
      · cases Option.some.inj made
        exact view.live
      · cases Option.some.inj made
        exact view.live
      · obtain ⟨out,_,same⟩ := Option.map_eq_some_iff.mp made
        subst same
        exact view.live
  · cases made

theorem Turn.live_of_callStep? {t : Turn} (sound : t.before.Sound) (made : t.callStep? = some d) :
    d.call = .begin ∨ t.before.ledger.Live d.tx := by
  unfold callStep? at made
  split at made
  · obtain ⟨j,found,did⟩ := Option.bind_eq_some_iff.mp made
    exact Job.live_of_callStep? (sound.job found) did
  · obtain ⟨c,found,did⟩ := Option.bind_eq_some_iff.mp made
    refine .inr ?_
    cases sound.client found with
    | idle view =>
      cases Option.some.inj did
      exact view.live
    | waiting | gone => cases did
  · obtain ⟨c,found,did⟩ := Option.bind_eq_some_iff.mp made
    refine .inr ?_
    cases sound.client found with
    | idle | gone => cases did
    | waiting _ _ view =>
      obtain ⟨out,_,same⟩ := Option.map_eq_some_iff.mp did
      subst same
      exact view.live
  · cases made

theorem Turn.handedTo_closed {t : Turn} (sound : t.before.Sound)
    (closed : ¬t.before.ledger.Live tx) (s : Sheet) : t.handedTo tx s = [] := by
  unfold handedTo
  cases made : t.callStep? with
  | none => rfl
  | some d =>
    simp only [Option.elim_some]
    split
    · rename_i mine
      rcases live_of_callStep? sound made with opening | live
      · exact CallStep.handed_of_opening opening s
      · exact absurd (mine ▸ live) closed
    · rfl

-- The invariant of every run: what is filed or pending was handed out, in the order of the ids.
structure Filed (history : List Turn) (b : Bank) : Prop where
  numbered : ∀ s, ((handed history s).map fun h => s.id h.2) = Ledger.numbers (b.ledger.seq s)
  pending : ∀ tx, b.ledger.Live tx → ∀ s, b.ledger.pending tx s = handedTo history tx s
  unborn : ∀ tx, b.ledger.begun ≤ tx → ∀ s, handedTo history tx s = []
  sheet : ∀ s, b.ledger.sheet s = (applied history).flatMap (handedTo history · s)

namespace Filed
variable {history : List Turn} {t : Turn} {b : Bank} {tx : TxId}

theorem pending_before (filed : Filed history t.before)
    (acts : ∃ tx, t.before.ledger.Acts tx t.after.ledger ∧
      (t.before.ledger.Live tx ∨ tx = t.before.ledger.nextTx))
    (live : t.after.ledger.Live tx) (s : Sheet) :
    t.before.ledger.pending tx s = handedTo history tx s := by
  obtain ⟨acting,acts,unspent⟩ := acts
  by_cases before : t.before.ledger.Live tx
  · exact filed.pending tx before s
  · have here : tx = acting := by
      by_contra other
      exact before (acts.live tx other live)
    have next : t.before.ledger.begun ≤ tx := by
      rcases unspent with old | new
      · exact absurd (here ▸ old) before
      · exact Nat.le_of_eq (here.trans new).symm
    rw [filed.unborn tx next]
    cases found : t.before.ledger.tx? tx with
    | none =>
      rw [Ledger.pending,found]
      rfl
    | some x => exact absurd ⟨x,found⟩ before

theorem settled (reckoned : Reckoned history t.before)
    (closed : ∀ seen, ¬t.before.ledger.Live seen → ∀ s, t.handedTo seen s = []) (s : Sheet) :
    (applied history).flatMap (handedTo (history ++ [t]) · s) =
      (applied history).flatMap (handedTo history · s) := by
  refine List.flatMap_congr fun seen member => ?_
  rw [handedTo_snoc,closed seen (reckoned.spent seen member).1,List.append_nil]

theorem keeps (filed : Filed history t.before) (reckoned : Reckoned history t.before)
    (sound : t.before.Sound)
    (acts : ∃ tx, t.before.ledger.Acts tx t.after.ledger ∧
      (t.before.ledger.Live tx ∨ tx = t.before.ledger.nextTx))
    (closed : ∀ seen, ¬t.before.ledger.Live seen → ∀ s, t.handedTo seen s = [])
    (numbered : ∀ s, Ledger.numbers (t.before.ledger.seq s) ++
      ((t.handed s).map fun h => s.id h.2) = Ledger.numbers (t.after.ledger.seq s))
    (sheet : ∀ s, t.after.ledger.sheet s = t.before.ledger.sheet s)
    (committed : t.after.ledger.committed = t.before.ledger.committed)
    (pending : ∀ tx, t.after.ledger.Live tx → ∀ s,
      t.after.ledger.pending tx s = t.before.ledger.pending tx s ++ t.handedTo tx s) :
    Filed (history ++ [t]) t.after := by
  refine ⟨?_,?_,?_,?_⟩
  · intro s
    rw [handed_snoc,List.map_append,filed.numbered,numbered]
  · intro tx live s
    rw [handedTo_snoc,pending tx live,filed.pending_before acts live]
  · intro tx unborn s
    obtain ⟨_,acts,_⟩ := acts
    have earlier := Nat.le_trans acts.begun unborn
    have unused : ¬t.before.ledger.Live tx := fun live =>
      Nat.not_lt.mpr earlier (sound.ledger.fresh tx live)
    rw [handedTo_snoc,filed.unborn tx earlier,closed tx unused]
    rfl
  · intro s
    rw [applied_of_silent (Turn.applied?_of_same committed),sheet,filed.sheet,
      settled reckoned closed]

theorem posts (filed : Filed history t.before)
    (acts : ∃ tx, t.before.ledger.Acts tx t.after.ledger ∧
      (t.before.ledger.Live tx ∨ tx = t.before.ledger.nextTx))
    (silent : ∀ seen s, t.handedTo seen s = []) (none : ∀ s, t.handed s = [])
    (live : t.before.ledger.Live tx) (applies : t.applied? = some tx)
    (seq : ∀ s, t.after.ledger.seq s = t.before.ledger.seq s)
    (sheet : ∀ s, t.after.ledger.sheet s =
      t.before.ledger.sheet s ++ t.before.ledger.pending tx s)
    (pending : ∀ tx, t.after.ledger.Live tx → ∀ s,
      t.after.ledger.pending tx s = t.before.ledger.pending tx s) :
    Filed (history ++ [t]) t.after := by
  have same : ∀ seen s, handedTo (history ++ [t]) seen s = handedTo history seen s := by
    intro seen s
    rw [handedTo_snoc,silent,List.append_nil]
  refine ⟨?_,?_,?_,?_⟩
  · intro s
    rw [handed_snoc,none,List.append_nil,seq]
    exact filed.numbered s
  · intro seen alive s
    rw [same,pending seen alive,filed.pending_before acts alive]
  · intro seen unborn s
    obtain ⟨_,acts,_⟩ := acts
    rw [same]
    exact filed.unborn seen (Nat.le_trans acts.begun unborn) s
  · intro s
    simp only [same]
    rw [applied_snoc,applies,sheet,filed.sheet,filed.pending tx live,Option.toList_some,
      List.flatMap_append,List.flatMap_singleton]

theorem empty : Filed [] {} := by
  refine ⟨?_,?_,fun _ _ _ => rfl,?_⟩
  · intro s
    cases s <;> rfl
  · rintro tx ⟨t,found⟩
    cases found
  · intro s
    cases s <;> rfl

-- A move files nothing, or what a commit posts.
theorem step {before after : Bank} {move : Move} (filed : Filed history before)
    (reckoned : Reckoned history before) (sound : before.Sound)
    (advanced : before.advance move = some after) :
    Filed (history ++ [⟨before,move,after⟩]) after := by
  have acts := (sound.advances advanced).acts sound
  have closed : ∀ seen, ¬before.ledger.Live seen → ∀ s,
      (Turn.mk before move after).handedTo seen s = [] := fun _ unseen =>
    Turn.handedTo_closed (t := ⟨before,move,after⟩) sound unseen
  have trails := Turn.trails sound advanced
  generalize made : (Turn.mk before move after).callStep? = callStep at trails
  cases trails with
  | still still =>
    refine filed.keeps reckoned sound acts closed ?_ still.sheet still.committed ?_
    · intro s
      rw [Turn.handed,made,still.seq]
      exact List.append_nil _
    · intro tx live s
      rw [Turn.handedTo,made,still.pending tx live]
      exact (List.append_nil _).symm
  | @files d _ files =>
    cases files with
    | keeps numbered sheet committed pending =>
      refine filed.keeps reckoned sound acts closed ?_ sheet committed ?_
      · intro s
        rw [Turn.handed,made,← numbered,Option.elim_some,List.map_map]
        rfl
      · intro tx live s
        rw [Turn.handedTo,made]
        exact pending tx live s
    | posts asked seq sheet committed pending =>
      have none := CallStep.handed_of_commit asked
      have live : before.ledger.Live d.tx := by
        rcases Turn.live_of_callStep? sound made with opening | live
        · rw [asked] at opening
          cases opening
        · exact live
      refine filed.posts acts ?_ ?_ live ?_ seq sheet pending
      · intro seen s
        rw [Turn.handedTo,made,Option.elim_some,none,ite_self]
      · intro s
        rw [Turn.handed,made,Option.elim_some,none]
        rfl
      · rw [Turn.applied?,made,Option.bind_some,if_pos ⟨asked,committed⟩]

end Filed

theorem runs_filed (runs : Runs {} history b) : Filed history b :=
  (runs.kept Filed.empty fun _ _ _ _ runs sound advanced filed =>
    filed.step (runs_reckoned runs) sound advanced).2

theorem handed_unique (runs : Runs {} history b) {s : Sheet} {h h' : TxId × s.Row}
    (member : h ∈ handed history s) (member' : h' ∈ handed history s)
    (same : s.id h.2 = s.id h'.2) : h = h' := by
  have distinct : ((handed history s).map fun h => s.id h.2).Nodup := by
    rw [(runs_filed runs).numbered]
    exact (Ledger.numbers_ascending _).imp fun earlier => Int.ne_of_lt earlier
  exact List.inj_on_of_nodup_map distinct member member' same

theorem mem_sheet (runs : Runs {} history b) {s : Sheet} {row : s.Row} :
    row ∈ b.ledger.sheet s ↔ Committed history s row := by
  rw [(runs_filed runs).sheet,List.mem_flatMap]
  simp only [mem_handedTo]
  rfl

theorem sheet_distinct (runs : Runs {} history b) (s : Sheet) :
    ((b.ledger.sheet s).map s.id).Nodup := by
  have reckoned := runs_reckoned runs
  rw [(runs_filed runs).sheet,List.map_flatMap,List.nodup_flatMap]
  constructor
  · intro tx _
    have distinct : ((handed history s).map fun h => s.id h.2).Nodup := by
      rw [(runs_filed runs).numbered]
      exact (Ledger.numbers_ascending _).imp fun earlier => Int.ne_of_lt earlier
    rw [handedTo,List.map_map]
    exact distinct.sublist (List.filter_sublist.map _)
  · refine reckoned.once.imp fun {tx tx'} different => ?_
    intro id member member'
    obtain ⟨row,here,rfl⟩ := List.mem_map.mp member
    obtain ⟨row',there,same⟩ := List.mem_map.mp member'
    have unique := handed_unique runs (mem_handedTo.mp here) (mem_handedTo.mp there) same.symm
    exact different (congrArg Prod.fst unique)

theorem Ledger.read?_eq (l : Ledger) (s : Sheet) (id : Int) :
    l.read? s id = (l.sheet s).find? fun row => s.id row = id := by
  cases s <;> rfl

theorem read?_iff (runs : Runs {} history b) {s : Sheet} {id : Int} {row : s.Row} :
    b.ledger.read? s id = some row ↔ s.id row = id ∧ Committed history s row := by
  rw [Ledger.read?_eq,← mem_sheet runs]
  constructor
  · intro found
    exact ⟨by simpa using List.find?_some found,List.mem_of_find?_eq_some found⟩
  · rintro ⟨rfl,member⟩
    cases found : (b.ledger.sheet s).find? fun row' => s.id row' = s.id row with
    | none =>
      have other := List.find?_eq_none.mp found row member
      simp at other
    | some row' =>
      have same : s.id row' = s.id row := by simpa using List.find?_some found
      have member' := List.mem_of_find?_eq_some found
      rw [List.inj_on_of_nodup_map (sheet_distinct runs s) member' member same]

theorem Committed.later {s : Sheet} {row : s.Row} (committed : Committed history s row)
    (later : List Turn) : Committed (history ++ later) s row := by
  obtain ⟨tx,closed,member⟩ := committed
  refine ⟨tx,?_,?_⟩
  · rw [applied,List.filterMap_append]
    exact List.mem_append_left _ closed
  · rw [handed,List.flatMap_append]
    exact List.mem_append_left _ member

theorem sorted_ascending {s : Sheet} {rows : List s.Row} (distinct : (rows.map s.id).Nodup) :
    (rows.mergeSort (s.id · ≤ s.id ·)).Pairwise (s.id · < s.id ·) := by
  have sorted := @List.pairwise_mergeSort _ (fun x y : s.Row => decide (s.id x ≤ s.id y))
    (fun x y z first second => by
      simp only [decide_eq_true_eq] at *
      exact Int.le_trans first second)
    (fun x y => by simpa using Int.le_total (s.id x) (s.id y)) rows
  have apart : (rows.mergeSort (s.id · ≤ s.id ·)).Pairwise (s.id · ≠ s.id ·) := by
    refine List.pairwise_map.mp (List.nodup_iff_pairwise_ne.mp ?_)
    exact ((List.mergeSort_perm rows _).map s.id).nodup_iff.mpr distinct
  refine sorted.imp₂ (fun x y below different => ?_) apart
  simp only [decide_eq_true_eq] at below
  omega

theorem openings_numbered (runs : Runs {} history b) :
    (openings history).map Account.id = Ledger.numbers b.ledger.rows.length := by
  have accounts := congrArg (List.map Account.id) (runs_reckoned runs).accounts
  rw [List.map_map] at accounts
  refine Eq.trans (b := b.ledger.books.accounts.map Account.id) accounts.symm ?_
  rw [Ledger.books,List.map_map]
  refine List.ext_getElem (by simp [Ledger.numbers]) fun n bound _ => ?_
  rw [List.length_map] at bound
  have place := (runs_sound runs).ledger.numbered n _ (List.getElem?_eq_getElem bound)
  simpa [Ledger.numbers,Row.id] using place

theorem audit_trail_kept (runs : Runs {} history b) :
    -- Ids are handed out in ascending order and never again, whatever becomes of the rows.
    (∀ s, ((handed history s).map fun h => s.id h.2).Pairwise (· < ·)) ∧
    ((openings history).map Account.id).Pairwise (· < ·) ∧
    -- What can be read under an id is the row that was handed out under it, if its transaction was
    -- committed, and it reads the same ever after.
    (∀ s id row, b.ledger.read? s id = some row ↔ s.id row = id ∧ Committed history s row) ∧
    (∀ s id row, b.ledger.read? s id = some row →
      ∀ later b', Runs b later b' → b'.ledger.read? s id = some row) ∧
    -- The lists show exactly the committed rows, each once, in ascending order.
    (∀ account, (b.ledger.entriesOf account).Pairwise (·.id < ·.id) ∧
      ∀ e, e ∈ b.ledger.entriesOf account ↔ e.account = account ∧ Committed history .entries e) ∧
    (∀ source destination,
      (b.ledger.transfersBetween source destination).Pairwise (·.id < ·.id) ∧
      ∀ t, t ∈ b.ledger.transfersBetween source destination ↔
        (t.source = source ∧ t.destination = destination) ∧ Committed history .transfers t) := by
  have distinct := sheet_distinct runs
  refine ⟨?_,?_,fun s id row => read?_iff runs,?_,?_,?_⟩
  · intro s
    rw [(runs_filed runs).numbered]
    exact Ledger.numbers_ascending _
  · rw [openings_numbered runs]
    exact Ledger.numbers_ascending _
  · intro s id row found later b' onward
    obtain ⟨same,committed⟩ := (read?_iff runs).mp found
    exact (read?_iff (runs.append onward)).mpr ⟨same,committed.later later⟩
  · intro account
    refine ⟨sorted_ascending ((distinct .entries).sublist (List.filter_sublist.map _)),?_⟩
    intro e
    rw [← mem_sheet runs,Ledger.entriesOf,List.mem_mergeSort,List.mem_filter,decide_eq_true_eq]
    exact And.comm
  · intro source destination
    refine ⟨sorted_ascending ((distinct .transfers).sublist (List.filter_sublist.map _)),?_⟩
    intro t
    rw [← mem_sheet runs,Ledger.transfersBetween,List.mem_mergeSort,List.mem_filter,
      decide_eq_true_eq]
    exact And.comm

-- Transactions that end in another order than they insert in. The second commits before the first,
-- whose acknowledgement is lost; the third is rolled back, the fourth dropped. Then a transfer.
def interleaved : List Move :=
  [.createAccount "alice" .eur 1000,.createAccount "bob" .eur 500,.begin,.begin,.begin,.begin,
    .call 0 (.insertTransfer 1 2 10),.call 1 (.insertTransfer 1 2 20),
    .call 2 (.insertTransfer 1 2 30),.call 3 (.insertTransfer 2 1 40),
    .call 1 (.insertEntry 2 20),.call 0 (.insertEntry 2 10),.call 2 (.insertEntry 2 30),
    .call 1 .commit,.call 2 .rollback,.drop 3,
    .arm .commitAcknowledgement (.transient "lost"),.call 0 .commit,
    .launch { request := { source := 1, destination := 2, amount := 7 } },
    .step 0,.step 0,.step 0,.step 0,.step 0,.step 0,.step 0,.step 0,
    .createAccount "carol" .eur 0]

theorem interleaved_ends : (Bank.replay {} interleaved).isSome = true := by decide +kernel

def interleavedRun : List Turn × Bank := (Bank.replay {} interleaved).get interleaved_ends

theorem audit_trail_kept_interleaved :
    Runs {} interleavedRun.1 interleavedRun.2 ∧
      ((handed interleavedRun.1 .transfers).map fun h => (h.1,h.2.id)) =
        [(0,1),(1,2),(2,3),(3,4),(4,5)] ∧
      interleavedRun.2.ledger.transfers.map Transfer.id = [2,1,5] ∧
      interleavedRun.2.ledger.transfer? 3 = none ∧
      ∃ row, Committed interleavedRun.1 .transfers row ∧ row.amount = 10 ∧
        ∀ later b', Runs interleavedRun.2 later b' → b'.ledger.transfer? 1 = some row := by
  have runs : Runs {} interleavedRun.1 interleavedRun.2 := runs_of_ends interleaved_ends
  obtain ⟨_,_,reads,stays,_⟩ := audit_trail_kept runs
  refine ⟨runs,by decide +kernel,by decide +kernel,by decide +kernel,?_⟩
  have filed : (interleavedRun.2.ledger.transfer? 1).map Transfer.amount = some 10 := by
    decide +kernel
  obtain ⟨row,found,amount⟩ := Option.map_eq_some_iff.mp filed
  exact ⟨row,((reads .transfers 1 row).mp found).2,amount,stays .transfers 1 row found⟩

end DoubleEntry
