import DoubleEntry.Proofs.CallEffects
import DoubleEntry.Proofs.Drafts

namespace DoubleEntry

inductive Sheet where
  | transfers
  | entries
deriving DecidableEq, Repr

namespace Sheet

abbrev Row : Sheet → Type
  | transfers => Transfer
  | entries => Entry

def id : (s : Sheet) → s.Row → Int
  | transfers => Transfer.id
  | entries => Entry.id

end Sheet

def Tx.sheet (t : Tx) : (s : Sheet) → List s.Row
  | .transfers => t.transfers
  | .entries => t.entries

def CallStep.handed : CallStep → (s : Sheet) → List s.Row
  | ⟨_,.insertTransfer _ _ _,.answered (.ok row)⟩,.transfers => [row]
  | ⟨_,.insertEntry _ _,.answered (.ok row)⟩,.entries => [row]
  | _,_ => []

theorem CallStep.handed_error (tx : TxId) (call : Call) (e : StoreError) (s : Sheet) :
    (CallStep.mk tx call (.answered (.error e))).handed s = [] := by
  cases call <;> cases s <;> rfl

namespace Ledger
variable {l l' l'' : Ledger} {tx : TxId} {d : CallStep} {now : Nat}

def sheet (l : Ledger) : (s : Sheet) → List s.Row
  | .transfers => l.transfers
  | .entries => l.entries

def seq (l : Ledger) : Sheet → Nat
  | .transfers => l.transferSeq
  | .entries => l.entrySeq

def pending (l : Ledger) (tx : TxId) (s : Sheet) : List s.Row := (l.tx? tx).elim [] (·.sheet s)

def numbers (n : Nat) : List Int := (List.range n).map fun k : Nat => (k : Int) + 1

theorem numbers_succ (n : Nat) : numbers (n + 1) = numbers n ++ [(n : Int) + 1] := by
  simp [numbers,List.range_succ]

theorem numbers_ascending (n : Nat) : (numbers n).Pairwise (· < ·) := by
  rw [numbers,List.pairwise_map]
  refine List.pairwise_lt_range.imp fun earlier => ?_
  omega

theorem pending_of_tx? (own : l'.tx? tx = l.tx? tx) (s : Sheet) :
    l'.pending tx s = l.pending tx s := by
  rw [pending,pending,own]

-- No id is handed out and nothing is filed; what is still open has the rows that it had.
structure Still (l l' : Ledger) : Prop where
  seq : ∀ s, l'.seq s = l.seq s
  sheet : ∀ s, l'.sheet s = l.sheet s
  committed : l'.committed = l.committed
  pending : ∀ tx, l'.Live tx → ∀ s, l'.pending tx s = l.pending tx s

inductive Files (l : Ledger) (d : CallStep) : Ledger → Prop where
  | keeps {l' : Ledger}
      (numbered : ∀ s, numbers (l.seq s) ++ (d.handed s).map s.id = numbers (l'.seq s))
      (sheet : ∀ s, l'.sheet s = l.sheet s) (committed : l'.committed = l.committed)
      (pending : ∀ tx, l'.Live tx → ∀ s, l'.pending tx s =
        l.pending tx s ++ if d.tx = tx then d.handed s else []) : Files l d l'
  | posts {l' : Ledger} (asked : d.call = .commit) (seq : ∀ s, l'.seq s = l.seq s)
      (sheet : ∀ s, l'.sheet s = l.sheet s ++ l.pending d.tx s)
      (committed : l'.committed = l.committed + 1)
      (pending : ∀ tx, l'.Live tx → ∀ s, l'.pending tx s = l.pending tx s) : Files l d l'

theorem Still.refl (l : Ledger) : Still l l := ⟨fun _ => rfl,fun _ => rfl,rfl,fun _ _ _ => rfl⟩

theorem still_of (transfers : l'.transfers = l.transfers) (entries : l'.entries = l.entries)
    (transferSeq : l'.transferSeq = l.transferSeq) (entrySeq : l'.entrySeq = l.entrySeq)
    (committed : l'.committed = l.committed)
    (pending : ∀ tx, l'.Live tx → ∀ s, l'.pending tx s = l.pending tx s) : Still l l' := by
  refine ⟨?_,?_,committed,pending⟩
  · intro s
    cases s <;> assumption
  · intro s
    cases s <;> assumption

theorem still_of_live (live : l'.live = l.live) (transfers : l'.transfers = l.transfers)
    (entries : l'.entries = l.entries) (transferSeq : l'.transferSeq = l.transferSeq)
    (entrySeq : l'.entrySeq = l.entrySeq) (committed : l'.committed = l.committed) : Still l l' :=
  still_of transfers entries transferSeq entrySeq committed fun tx _ s =>
    pending_of_tx? (tx?_of_live live tx) s

theorem still_disarm (l : Ledger) (p : FaultPoint) : Still l (l.disarm p) :=
  still_of_live rfl rfl rfl rfl rfl rfl

theorem still_updateRow (l : Ledger) (id : AccountId) (f : Row → Row) :
    Still l (l.updateRow id f) :=
  still_of_live rfl rfl rfl rfl rfl rfl

theorem still_leaveQueues (l : Ledger) (tx : TxId) : Still l (l.leaveQueues tx) :=
  still_of_live rfl rfl rfl rfl rfl rfl

-- A transaction that goes takes its rows along; the others keep theirs.
theorem still_discard (l : Ledger) (tx : TxId) : Still l (l.discard tx) := by
  refine still_of rfl rfl rfl rfl rfl ?_
  intro seen live s
  have different : seen ≠ tx := fun same => not_live_discard l tx (same ▸ live)
  exact pending_of_tx? (tx?_discard_ne l different) s

theorem Still.trans (one : Still l l') (live : l'.live = l.live) (two : Still l' l'') :
    Still l l'' := by
  refine ⟨fun s => (two.seq s).trans (one.seq s),fun s => (two.sheet s).trans (one.sheet s),
    two.committed.trans one.committed,?_⟩
  intro tx alive s
  exact (two.pending tx alive s).trans (pending_of_tx? (tx?_of_live live tx) s)

theorem pending_updateTx_ne {f : Tx → Tx} (same : ∀ t, (f t).id = t.id) (other : seen ≠ tx)
    (s : Sheet) : (l.updateTx tx f).pending seen s = l.pending seen s :=
  pending_of_tx? (tx?_updateTx_ne same other) s

theorem pending_updateTx_self {f : Tx → Tx} (same : ∀ t, (f t).id = t.id)
    (live : (l.updateTx tx f).Live tx) : ∃ t, l.tx? tx = some t ∧
      ∀ s, (l.updateTx tx f).pending tx s = (f t).sheet s := by
  obtain ⟨t,found⟩ := (live_updateTx same).mp live
  refine ⟨t,found,fun s => ?_⟩
  rw [pending,tx?_updateTx_self same found]
  rfl

theorem pending_of_found (found : l.tx? tx = some t) (s : Sheet) :
    l.pending tx s = t.sheet s := by
  rw [pending,found]
  rfl

theorem still_put (l : Ledger) (tx : TxId) (a : Account) :
    Still l (l.updateTx tx (·.put a)) := by
  have same : ∀ t : Tx, (t.put a).id = t.id := fun _ => rfl
  refine still_of rfl rfl rfl rfl rfl ?_
  intro seen live s
  by_cases here : seen = tx
  · subst here
    obtain ⟨t,found,own⟩ := pending_updateTx_self same live
    rw [own,pending_of_found found]
    cases s <;> rfl
  · exact pending_updateTx_ne same here s

theorem still_begin (sound : l.Sound) : Still l l.begin.1 := by
  unfold begin
  rcases guarded_cases l .begin
    (⟨{ l with begun := l.begun + 1, live := l.live ++ [{ id := l.nextTx }] },.ok ()⟩)
    with ⟨e,_,failed⟩ | ⟨_,worked⟩
  · rw [failed]
    exact still_disarm l .begin
  · rw [worked]
    refine still_of rfl rfl rfl rfl rfl ?_
    intro seen _ s
    have unused : l.tx? l.nextTx = none := by
      cases found : l.tx? l.nextTx with
      | none => rfl
      | some t => exact absurd ⟨t,found⟩ (not_live_nextTx sound)
    by_cases new : seen = l.nextTx
    · subst new
      rw [pending,pending,tx?_append rfl,unused,if_pos rfl]
      cases s <;> rfl
    · refine pending_of_tx? ?_ s
      rw [tx?_append rfl,if_neg (Ne.symm new),Option.or_none]

theorem still_giveUp (l : Ledger) (tx : TxId) (call : Call) : Still l (l.giveUp tx call) := by
  cases call with
  | commit => exact still_discard l tx
  | begin | insertTransfer | insertEntry | addToBalance | rollback => exact still_leaveQueues l tx

theorem still_fail (l : Ledger) (tx : TxId) (call : Call) : Still l (Job.fail l tx call) := by
  cases call with
  | commit | rollback => exact still_discard l tx
  | begin | insertTransfer | insertEntry | addToBalance => exact .refl l

theorem Still.files (still : Still l l') (none : ∀ s, d.handed s = []) : l.Files d l' := by
  refine .keeps ?_ still.sheet still.committed ?_
  · intro s
    rw [none,List.map_nil,List.append_nil,still.seq]
  · intro tx live s
    rw [none,ite_self,List.append_nil]
    exact still.pending tx live s

theorem files_insert {s : Sheet} (row : s.Row) {f : Tx → Tx} (same : ∀ t, (f t).id = t.id)
    (handed : ∀ s', d.handed s' = if here : s' = s then [here ▸ row] else [])
    (numbered : s.id row = (l.seq s : Int) + 1)
    (seq : ∀ s', l'.seq s' = if s' = s then l.seq s + 1 else l.seq s')
    (sheet : ∀ s, l'.sheet s = l.sheet s) (committed : l'.committed = l.committed)
    (live : l'.live = (l.updateTx d.tx f).live)
    (inserted : ∀ t s', (f t).sheet s' = t.sheet s' ++ d.handed s') : l.Files d l' := by
  refine .keeps ?_ sheet committed ?_
  · intro s'
    rw [handed,seq]
    by_cases here : s' = s
    · subst here
      rw [dif_pos rfl,if_pos rfl,numbers_succ,← numbered]
      rfl
    · rw [dif_neg here,if_neg here]
      exact List.append_nil _
  · intro tx alive s'
    have alive : (l.updateTx d.tx f).Live tx := by
      simpa only [Live,tx?_of_live live] using alive
    rw [pending_of_tx? (tx?_of_live live tx)]
    by_cases mine : d.tx = tx
    · subst mine
      obtain ⟨t,found,own⟩ := pending_updateTx_self same alive
      rw [own,inserted,pending_of_found found,if_pos rfl]
    · rw [if_neg mine,List.append_nil]
      exact pending_updateTx_ne same (Ne.symm mine) s'

theorem insertTransfer_files (l : Ledger) (now : Nat) (tx : TxId) (source destination : AccountId)
    (amount : Int) :
    let out := l.start now tx (.insertTransfer source destination amount)
    l.Files ⟨tx,.insertTransfer source destination amount,out.2⟩ out.1 := by
  simp only [start,insertTransfer]
  rcases guarded_cases l .insertTransfer _ with ⟨e,_,failed⟩ | ⟨_,worked⟩
  · rw [failed]
    exact (still_disarm l _).files (CallStep.handed_error _ _ _)
  · rw [worked]
    split
    · exact (Still.refl l).files (CallStep.handed_error _ _ _)
    · split
      · exact (Still.refl l).files (CallStep.handed_error _ _ _)
      · let row : Transfer := ⟨l.transferSeq + 1,source,destination,amount,.ofMillis now⟩
        refine files_insert (s := .transfers) row
          (f := fun t => { t with transfers := t.transfers ++ [row] }) (fun _ => rfl) ?_ rfl ?_ ?_
          rfl rfl ?_
        · intro s
          cases s <;> rfl
        · intro s
          cases s <;> rfl
        · intro s
          cases s <;> rfl
        · intro t s
          cases s with
          | transfers => rfl
          | entries => exact (List.append_nil _).symm

theorem insertEntry_files (l : Ledger) (now : Nat) (tx : TxId) (account : AccountId)
    (amount : Int) :
    let out := l.start now tx (.insertEntry account amount)
    l.Files ⟨tx,.insertEntry account amount,out.2⟩ out.1 := by
  simp only [start,insertEntry]
  rcases guarded_cases l .insertEntry _ with ⟨e,_,failed⟩ | ⟨_,worked⟩
  · rw [failed]
    exact (still_disarm l _).files (CallStep.handed_error _ _ _)
  · rw [worked]
    split
    · exact (Still.refl l).files (CallStep.handed_error _ _ _)
    · let row : Entry := ⟨l.entrySeq + 1,account,amount,.ofMillis now⟩
      refine files_insert (s := .entries) row
        (f := fun t => { t with entries := t.entries ++ [row] }) (fun _ => rfl) ?_ rfl ?_ ?_
        rfl rfl ?_
      · intro s
        cases s <;> rfl
      · intro s
        cases s <;> rfl
      · intro s
        cases s <;> rfl
      · intro t s
        cases s with
        | transfers => exact (List.append_nil _).symm
        | entries => rfl

theorem handed_addToBalance (tx : TxId) (id : AccountId) (delta : Int) (progress : Progress Account)
    (s : Sheet) : (CallStep.mk tx (.addToBalance id delta) progress).handed s = [] := by
  cases s <;> rfl

theorem handed_commit (tx : TxId) (progress : Progress Unit) (s : Sheet) :
    (CallStep.mk tx .commit progress).handed s = [] := by
  cases s <;> rfl

theorem Affects.addToBalance_still {id : AccountId} {delta : Int}
    (affects : l.Affects tx (.addToBalance id delta) l') : Still l l' := by
  cases affects with
  | keeps => exact .refl l
  | strikes p => exact still_disarm l p
  | asks => exact still_updateRow l id _
  | drafts a => exact still_put l tx a
  | takes a => exact (still_updateRow l id _).trans rfl (still_put _ tx a)
  | closes ending => rcases ending with ending | ending <;> cases ending

theorem Affects.commit_files (affects : l.Affects tx .commit l') (progress : Progress Unit) :
    l.Files ⟨tx,.commit,progress⟩ l' := by
  cases affects with
  | keeps => exact (Still.refl l).files (handed_commit tx progress)
  | strikes p => exact (still_disarm l p).files (handed_commit tx progress)
  | closes =>
    refine Still.files ?_ (handed_commit tx progress)
    exact still_of rfl rfl rfl rfl rfl (still_discard l tx).pending
  | commits found =>
    refine .posts rfl ?_ ?_ rfl (still_discard l tx).pending
    · intro s
      cases s <;> rfl
    · intro s
      rw [pending_of_found found]
      cases s <;> rfl

theorem start_files (sound : l.Sound) (now : Nat) (tx : TxId) (call : Call) :
    l.Files ⟨tx,call,(l.start now tx call).2⟩ (l.start now tx call).1 := by
  cases call with
  | begin =>
    refine (still_begin sound).files fun s => ?_
    cases s <;> rfl
  | insertTransfer => exact insertTransfer_files l now tx _ _ _
  | insertEntry => exact insertEntry_files l now tx _ _
  | addToBalance =>
    exact (start_affects l now tx _).addToBalance_still.files (handed_addToBalance tx _ _ _)
  | commit => exact (start_affects l now tx .commit).commit_files _
  | rollback =>
    refine Still.files ?_ fun s => ?_
    · exact still_of rfl rfl rfl rfl rfl (still_discard l tx).pending
    · cases s <;> rfl

theorem resume_files {call : Call} {w : Wait} {out : Ledger × Progress call.Row}
    (resumed : l.resume now tx call w = some out) : l.Files ⟨tx,call,out.2⟩ out.1 := by
  cases resumed_of_resume resumed with
  | held | rested =>
    exact (resume_affects resumed).addToBalance_still.files (handed_addToBalance tx _ _ _)
  | commits => exact (resume_affects resumed).commit_files _

-- What a turn does to the trail, by the call that was made or gone on with in it, if any.
inductive Trails (l : Ledger) : Option CallStep → Ledger → Prop where
  | still {l' : Ledger} (still : Still l l') : Trails l none l'
  | files {d : CallStep} {l' : Ledger} (files : l.Files d l') : Trails l (some d) l'

end Ledger

namespace Client
variable {l l' : Ledger} {now : Nat} {c c' : Client}

theorem make_trails (sound : l.Sound) (made : c.make now l call = some (l',c')) :
    l.Trails (c.made? now l call) l' := by
  cases c with
  | waiting | gone => cases made
  | idle tx =>
    simp only [make] at made
    split at made
    · cases made
    · have settled := congrArg Prod.fst (Option.some.inj made)
      rw [settle_fst] at settled
      subst settled
      exact .files (Ledger.start_files sound now tx call)

theorem resume_trails (resumed : c.resume now l = some (l',c')) :
    l.Trails (c.resumed? now l) l' := by
  cases c with
  | idle | gone => cases resumed
  | waiting tx call w =>
    obtain ⟨out,answered,settled⟩ := Option.map_eq_some_iff.mp resumed
    have settled := congrArg Prod.fst settled
    rw [settle_fst] at settled
    subst settled
    have callStep : resumed? now l (.waiting tx call w) = some ⟨tx,call,out.2⟩ := by
      rw [resumed?,answered,Option.map_some]
    rw [callStep]
    exact .files (Ledger.resume_files answered)

theorem cancel_still (cancelled : c.cancel l = some (l',c')) : l.Still l' := by
  cases c with
  | idle | gone => cases cancelled
  | waiting tx call w =>
    unfold cancel at cancelled
    split at cancelled
    · cases Option.some.inj cancelled
      exact Ledger.still_updateRow l _ _
    · cases Option.some.inj cancelled
      exact Ledger.still_giveUp l _ _
    · cases cancelled

theorem drop_still (dropped : c.drop l = some (l',c')) : l.Still l' := by
  cases c with
  | gone => cases dropped
  | idle tx | waiting tx _ _ =>
    cases Option.some.inj dropped
    exact Ledger.still_discard l tx

end Client

namespace Job
variable {l l' : Ledger} {j j' : Job} {now : Nat}

theorem issue_files (j : Job) (sound : l.Sound) (now : Nat) (tx : TxId) (call : Call) :
    l.Files ⟨tx,call,(j.issue l now tx call).2⟩ (j.issue l now tx call).1 := by
  rcases issue_cases j l now tx call with ⟨e,failed⟩ | started
  · rw [failed]
    exact (Ledger.still_fail l tx call).files (CallStep.handed_error tx call e)
  · rw [started]
    exact Ledger.start_files sound now tx call

theorem step_trails (sound : l.Sound) (stepped : j.step now l = some (l',j')) :
    l.Trails (j.callStep? now l) l' := by
  have issued {tx : TxId} {call : Call} {l' : Ledger} {progress : Progress call.Row}
      (issued : j.issue l now tx call = (l',progress)) : l.Files ⟨tx,call,progress⟩ l' := by
    have files := issue_files j sound now tx call
    rwa [issued] at files
  cases step_sound stepped with
  | wake stage | rest stage | finish stage =>
    simp only [callStep?,stage]
    exact .still (.refl l)
  | await stage next made | answered stage next made | waits stage next made =>
    simp only [callStep?,stage,next,made]
    exact .files (issued made)
  | resumed stage next resumed | waitsOn stage next resumed =>
    simp only [callStep?,stage,next,resumed]
    exact .files (Ledger.resume_files resumed)
  | late stage next waiting =>
    simp only [callStep?,stage,next,waiting]
    exact .still (Ledger.still_giveUp l _ _)

theorem abort_still (l : Ledger) (j : Job) : l.Still (j.abort l).1 := by
  unfold abort
  split
  · exact .refl l
  · exact Ledger.still_discard l _
  · exact .refl l

end Job

theorem Turn.trails {before after : Bank} {move : Move} (sound : before.Sound)
    (advanced : before.advance move = some after) :
    before.ledger.Trails (Turn.mk before move after).callStep? after.ledger := by
  cases move with
  | createAccount | arm | setLockHold | setCommitDelay | pass | launch =>
    cases Option.some.inj advanced
    exact .still (Ledger.still_of_live rfl rfl rfl rfl rfl rfl)
  | step i =>
    obtain ⟨j,l',j',found,stepped,rfl⟩ := Bank.updateJob_eq_some advanced
    simp only [callStep?,found,Option.bind_some]
    exact Job.step_trails sound.ledger stepped
  | abort i =>
    obtain ⟨j,l',j',found,aborted,rfl⟩ := Bank.updateJob_eq_some advanced
    split at aborted
    · have still := Job.abort_still before.ledger j
      rw [Option.some.inj aborted] at still
      exact .still still
    · cases aborted
  | begin =>
    rw [Bank.ledger_begin advanced]
    exact .still (Ledger.still_begin sound.ledger)
  | call i call =>
    obtain ⟨c,l',c',found,made,rfl⟩ := Bank.updateClient_eq_some advanced
    simp only [callStep?,found,Option.bind_some]
    exact Client.make_trails sound.ledger made
  | resume i =>
    obtain ⟨c,l',c',found,resumed,rfl⟩ := Bank.updateClient_eq_some advanced
    simp only [callStep?,found,Option.bind_some]
    exact Client.resume_trails resumed
  | cancel i =>
    obtain ⟨c,l',c',found,cancelled,rfl⟩ := Bank.updateClient_eq_some advanced
    exact .still (Client.cancel_still cancelled)
  | drop i =>
    obtain ⟨c,l',c',found,dropped,rfl⟩ := Bank.updateClient_eq_some advanced
    exact .still (Client.drop_still dropped)

end DoubleEntry
