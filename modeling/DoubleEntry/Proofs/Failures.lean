import DoubleEntry.Proofs.Sheets

namespace DoubleEntry

def Call.point? : Call → Option FaultPoint
  | begin => some .begin
  | insertTransfer _ _ _ => some .insertTransfer
  | insertEntry _ _ => some .insertEntry
  | addToBalance _ _ => some .addToBalance
  | commit | rollback => none

namespace CallStep

def failure? : CallStep → Option StoreError
  | ⟨_,_,.answered (.error e)⟩ => some e
  | _ => none

-- The call has brought no row, or none yet.
def Fruitless : CallStep → Prop
  | ⟨_,_,.answered (.ok _)⟩ => False
  | _ => True

theorem granted_fruitless {d : CallStep} (fruitless : d.Fruitless) : d.granted = [] := by
  obtain ⟨tx,call,progress⟩ := d
  match progress with
  | .waiting w => exact granted_waiting tx call w
  | .answered (.error e) => exact granted_error tx call e
  | .answered (.ok row) => cases fruitless

theorem handed_fruitless {d : CallStep} (fruitless : d.Fruitless) (s : Sheet) : d.handed s = [] := by
  obtain ⟨tx,call,progress⟩ := d
  match progress with
  | .waiting w => cases call <;> cases s <;> rfl
  | .answered (.error e) => exact handed_error tx call e s
  | .answered (.ok row) => cases fruitless

theorem fruitless_of_failure {d : CallStep} (failed : d.failure? = some e) : d.Fruitless := by
  obtain ⟨tx,call,progress⟩ := d
  match progress with
  | .waiting w | .answered (.error e) => trivial
  | .answered (.ok row) => cases failed

end CallStep

namespace Ledger
variable {l l' : Ledger} {tx : TxId} {id : AccountId} {call : Call} {d : CallStep} {now : Nat}
  {planned : Prop}

def Free (l : Ledger) (id : AccountId) : Prop := ∀ tx, ¬l.Holds tx id

theorem holder_of_free {r : Row} (free : l.Free id) (found : l.row? id = some r) :
    r.holder = none := by
  cases holder : r.holder with
  | none => rfl
  | some tx => exact absurd ⟨r,found,holder⟩ (free tx)

theorem free_iff : l.Free id ↔ (l.row? id).bind Row.holder = none := by
  constructor
  · intro free
    cases found : l.row? id with
    | none => rfl
    | some r => exact holder_of_free free found
  · rintro vacant tx ⟨r,found,held⟩
    rw [found,Option.bind_some,held] at vacant
    cases vacant

instance : Decidable (l.Free id) := decidable_of_iff _ free_iff.symm

-- Apart from seats at rows and armed failures the ledger is as it was.
structure Unmoved (tx : TxId) (l l' : Ledger) : Prop where
  books : l'.books = l.books
  live : l'.live = l.live
  seq : ∀ s, l'.seq s = l.seq s
  begun : l'.begun = l.begun
  committed : l'.committed = l.committed
  rolledBack : l'.rolledBack = l.rolledBack
  lockHold : l'.lockHold = l.lockHold
  commitDelay : l'.commitDelay = l.commitDelay
  preserves : ∀ other, other ≠ tx → l.Live other → l.PreservesTx other l'

-- What a fruitless call leaves. A row is asked for only while it is not held by the transaction; if
-- it is free it is taken, else the call waits in its queue.
inductive Leaves (l : Ledger) : CallStep → Ledger → Prop where
  | same {d : CallStep} : Leaves l d l
  | struck {tx : TxId} {call : Call} {p : FaultPoint} {e : StoreError}
      (point : call.point? = some p) (armed : l.fault? p = some e) :
      Leaves l ⟨tx,call,.answered (.error e)⟩ (l.disarm p)
  | takes {tx : TxId} {id : AccountId} {delta : Int} {progress : Progress Account}
      (free : l.Free id) :
      Leaves l ⟨tx,.addToBalance id delta,progress⟩ (l.updateRow id (Row.request tx))
  | queues {tx : TxId} {id : AccountId} {delta : Int} (taken : ¬l.Free id) :
      Leaves l ⟨tx,.addToBalance id delta,.waiting (.row id)⟩ (l.updateRow id (Row.request tx))

-- The transaction is gone with its writes; every row at which it sat passes on.
structure Discards (tx : TxId) (l l' : Ledger) : Prop where
  books : l'.books = l.books
  live : l'.live = l.live.filter (·.id ≠ tx)
  rows : l'.rows = l.rows.map (Row.release tx)
  seq : ∀ s, l'.seq s = l.seq s
  begun : l'.begun = l.begun
  committed : l'.committed = l.committed
  lockHold : l'.lockHold = l.lockHold
  commitDelay : l'.commitDelay = l.commitDelay
  preserves : ∀ other, other ≠ tx → l.Live other → l.PreservesTx other l'
  unseated : ∀ id, ¬l'.Seated tx id

-- What becomes of a call when it is made or gone on with. A planned failure never reaches the ledger.
inductive Performs (planned : Prop) (now : Nat) (l : Ledger) : CallStep → Ledger → Prop where
  | starts (tx : TxId) (call : Call) :
      Performs planned now l ⟨tx,call,(l.start now tx call).2⟩ (l.start now tx call).1
  | resumes {tx : TxId} {call : Call} {w : Wait} {out : Ledger × Progress call.Row}
      (resumed : l.resume now tx call w = some out) :
      Performs planned now l ⟨tx,call,out.2⟩ out.1
  | fails (failing : planned) (tx : TxId) (call : Call) (e : StoreError) :
      Performs planned now l ⟨tx,call,.answered (.error e)⟩ (Job.fail l tx call)

theorem Performs.mono {planned planned' : Prop} (performs : l.Performs planned now d l')
    (wider : planned → planned') : l.Performs planned' now d l' := by
  cases performs with
  | starts tx call => exact .starts tx call
  | resumes resumed => exact .resumes resumed
  | fails failing tx call e => exact .fails (wider failing) tx call e

theorem guarded_armed {p : FaultPoint} {e : StoreError} (armed : l.fault? p = some e)
    (work : Ledger × Except StoreError α) : l.guarded p work = (l.disarm p,.error e) := by
  rw [guarded,armed]

theorem guarded_open {p : FaultPoint} (unarmed : l.fault? p = none)
    (work : Ledger × Except StoreError α) : l.guarded p work = work := by
  rw [guarded,unarmed]

theorem start_armed {p : FaultPoint} {e : StoreError} (point : call.point? = some p)
    (armed : l.fault? p = some e) (tx : TxId) :
    l.start now tx call = (l.disarm p,.answered (.error e)) := by
  cases call <;> cases point
  · rw [start,begin,guarded_armed armed]
  · rw [start,insertTransfer,guarded_armed armed]
  · rw [start,insertEntry,guarded_armed armed]
  · simp only [start,requestRow,guarded_armed armed]

theorem applyDelta_fruitless {delta : Int} {e : StoreError}
    (failed : (l.applyDelta tx id delta).2 = .error e) : (l.applyDelta tx id delta).1 = l := by
  unfold applyDelta at failed ⊢
  split
  · rfl
  · split
    · rfl
    · simp_all

theorem hold_fruitless {delta : Int}
    (fruitless : (CallStep.mk tx (.addToBalance id delta) (l.hold now tx id delta).2).Fruitless) :
    (l.hold now tx id delta).1 = l := by
  unfold hold at fruitless ⊢
  split
  · rfl
  · rename_i prompt
    simp only [prompt] at fruitless
    cases answer : (l.applyDelta tx id delta).2 with
    | error e => exact applyDelta_fruitless answer
    | ok a =>
      rw [answer] at fruitless
      cases fruitless

-- An insert that is refused uses no id up.
theorem insertTransfer_fruitless {source destination : AccountId} {amount : Int}
    (unarmed : l.fault? .insertTransfer = none)
    (fruitless : (CallStep.mk tx (.insertTransfer source destination amount)
      (l.start now tx (.insertTransfer source destination amount)).2).Fruitless) :
    (l.start now tx (.insertTransfer source destination amount)).1 = l := by
  simp only [start,insertTransfer,guarded_open unarmed] at fruitless ⊢
  by_cases invalid : amount ≤ 0 ∨ source = destination
  · rw [if_pos invalid]
  · simp only [if_neg invalid] at fruitless ⊢
    cases lacking : [source,destination].find? fun id => (l.account? id).isNone with
    | some id => rfl
    | none =>
      rw [lacking] at fruitless
      cases fruitless

theorem insertEntry_fruitless {account : AccountId} {amount : Int}
    (unarmed : l.fault? .insertEntry = none)
    (fruitless : (CallStep.mk tx (.insertEntry account amount)
      (l.start now tx (.insertEntry account amount)).2).Fruitless) :
    (l.start now tx (.insertEntry account amount)).1 = l := by
  simp only [start,insertEntry,guarded_open unarmed] at fruitless ⊢
  by_cases missing : (l.account? account).isNone = true
  · rw [if_pos missing]
  · rw [if_neg missing] at fruitless
    cases fruitless

theorem addToBalance_leaves {delta : Int} (unarmed : l.fault? .addToBalance = none)
    (fruitless : (CallStep.mk tx (.addToBalance id delta)
      (l.start now tx (.addToBalance id delta)).2).Fruitless) :
    l.Leaves ⟨tx,.addToBalance id delta,(l.start now tx (.addToBalance id delta)).2⟩
      (l.start now tx (.addToBalance id delta)).1 := by
  simp only [start,requestRow,guarded_open unarmed] at fruitless ⊢
  cases found : l.row? id with
  | none => exact .same
  | some r =>
    simp only [found] at fruitless ⊢
    by_cases mine : r.holder = some tx
    · simp only [if_pos mine] at fruitless ⊢
      cases answer : (l.applyDelta tx id delta).2 with
      | error e =>
        rw [applyDelta_fruitless answer]
        exact .same
      | ok a =>
        rw [answer] at fruitless
        cases fruitless
    · simp only [if_neg mine] at fruitless ⊢
      by_cases vacant : r.holder = none
      · have free : l.Free id := free_iff.mpr (by rw [found]; exact vacant)
        simp only [if_pos vacant] at fruitless ⊢
        rw [hold_fruitless fruitless]
        exact .takes free
      · simp only [if_neg vacant]
        exact .queues fun free => vacant (holder_of_free free found)

theorem start_leaves (inside : call.Inside)
    (fruitless : (CallStep.mk tx call (l.start now tx call).2).Fruitless) :
    l.Leaves ⟨tx,call,(l.start now tx call).2⟩ (l.start now tx call).1 := by
  obtain ⟨p,point⟩ : ∃ p, call.point? = some p := by
    cases call <;> first | exact ⟨_,rfl⟩ | cases inside
  cases armed : l.fault? p with
  | some e =>
    rw [start_armed point armed]
    exact .struck point armed
  | none =>
    cases call with
    | begin | commit | rollback => cases inside
    | insertTransfer =>
      cases point
      rw [insertTransfer_fruitless armed fruitless]
      exact .same
    | insertEntry =>
      cases point
      rw [insertEntry_fruitless armed fruitless]
      exact .same
    | addToBalance =>
      cases point
      exact addToBalance_leaves armed fruitless

theorem resume_leaves {w : Wait} {out : Ledger × Progress call.Row} (inside : call.Inside)
    (resumed : l.resume now tx call w = some out)
    (fruitless : (CallStep.mk tx call out.2).Fruitless) :
    out.1 = l := by
  cases resumed_of_resume resumed with
  | held => exact hold_fruitless fruitless
  | @rested id delta =>
    cases answer : (l.applyDelta tx id delta).2 with
    | error e => exact applyDelta_fruitless answer
    | ok a =>
      simp only [answer] at fruitless
      cases fruitless
  | commits => cases inside

theorem Performs.leaves (performs : l.Performs planned now d l') (inside : d.call.Inside)
    (fruitless : d.Fruitless) : l.Leaves d l' := by
  cases performs with
  | starts tx call => exact start_leaves inside fruitless
  | resumes resumed =>
    rw [resume_leaves inside resumed fruitless]
    exact .same
  | fails _ tx call e =>
    have kept : Job.fail l tx call = l := by
      cases call <;> first | rfl | cases inside
    rw [kept]
    exact .same

theorem Leaves.unmoved (leaves : l.Leaves d l')
    (preserves : ∀ other, other ≠ d.tx → l.Live other → l.PreservesTx other l') :
    l.Unmoved d.tx l' := by
  cases leaves with
  | same => exact ⟨rfl,rfl,fun _ => rfl,rfl,rfl,rfl,rfl,rfl,preserves⟩
  | struck =>
    refine ⟨rfl,rfl,?_,rfl,rfl,rfl,rfl,rfl,preserves⟩
    intro s
    cases s <;> rfl
  | takes | queues =>
    refine ⟨books_updateRow l _ (Row.account_request _),rfl,?_,rfl,rfl,rfl,rfl,rfl,preserves⟩
    intro s
    cases s <;> rfl

theorem Unmoved.refl (l : Ledger) (tx : TxId) : l.Unmoved tx l :=
  ⟨rfl,rfl,fun _ => rfl,rfl,rfl,rfl,rfl,rfl,fun _ _ _ => preservesTx_of_rows rfl rfl⟩

theorem unmoved_release (sound : l.Sound) (tx : TxId) (id : AccountId) :
    l.Unmoved tx (l.updateRow id (Row.release tx)) := by
  refine ⟨books_updateRow l id (Row.account_release tx),rfl,?_,rfl,rfl,rfl,rfl,rfl,
    (acts_release sound tx id).preserves⟩
  intro s
  cases s <;> rfl

-- A transaction goes in the same way whatever it is counted as.
theorem discards (sound : l.Sound) (tx : TxId) (faults : List (FaultPoint × StoreError))
    (rolledBack : Nat) :
    l.Discards tx { l.discard tx with faults := faults, rolledBack := rolledBack } := by
  have closes : l.Closes tx { l.discard tx with faults := faults, rolledBack := rolledBack } :=
    closes_of_same (closes_discard sound tx) rfl rfl rfl
  refine ⟨books_discard l tx,rfl,rfl,?_,rfl,rfl,rfl,rfl,closes.acts.preserves,?_⟩
  · intro s
    cases s <;> rfl
  · exact not_seated_of_closed closes.acts.sound closes.gone

theorem HasView.leave_same {s : TxView} {r : Row} (sound : l.Sound) (view : l.HasView tx s)
    (member : r ∈ l.rows) (unsought : s.sought ≠ some r.id) : r.leave tx = r := by
  have found := sound.row?_id member
  have absent : tx ∉ r.queue := by
    intro queued
    rcases view.seated r.id ⟨r,found,Row.mem_seats.mpr (.inr queued)⟩ with held | sought
    · obtain ⟨r',found',holder⟩ := view.holds r.id held
      cases Option.some.inj (found.symm.trans found')
      exact (sound.orderly r.id r found).not_queued holder queued
    · exact unsought sought
  have kept : r.queue.filter (· ≠ tx) = r.queue := by
    rw [List.filter_eq_self]
    intro other queued
    have different : other ≠ tx := fun same => absent (same ▸ queued)
    simpa using different
  rw [Row.leave,kept]

theorem HasView.leaveQueues_same {s : TxView} (sound : l.Sound) (view : l.HasView tx s)
    (idle : s.sought = none) : l.leaveQueues tx = l := by
  have rows : l.rows.map (Row.leave tx) = l.rows := by
    conv => rhs; rw [← List.map_id l.rows]
    refine List.map_congr_left fun r member => view.leave_same sound member ?_
    rw [idle]
    simp
  rw [Ledger.leaveQueues,rows]

theorem HasView.leaveQueues_sought {s : TxView} (sound : l.Sound)
    (view : l.HasView tx { s with sought := some id }) (unheld : ¬l.Holds tx id) :
    l.leaveQueues tx = l.updateRow id (Row.release tx) := by
  have rows : l.rows.map (Row.leave tx) = l.rows.map (onRow id (Row.release tx)) := by
    refine List.map_congr_left fun r member => ?_
    unfold onRow
    split
    · rename_i here
      have found := sound.row?_id member
      have foreign : r.holder ≠ some tx := fun mine => unheld ⟨r,here ▸ found,mine⟩
      rw [Row.release,if_neg foreign]
    · rename_i other
      refine view.leave_same sound member fun sought => other ?_
      exact (Option.some.inj sought).symm
  rw [Ledger.leaveQueues,rows]
  rfl

theorem unseated_release {s : TxView} (sound : l.Sound)
    (view : l.HasView tx { s with sought := some id }) :
    ¬(l.updateRow id (Row.release tx)).Seated tx id := by
  intro seated
  rcases (view.release sound).seated id seated with held | sought
  · exact view.apart id rfl held
  · cases sought

-- A commit that fails without having been applied was refused.
theorem commit_refused {e : StoreError} (live : l.Live tx) (failed : (l.commit tx).2 = .error e)
    (unapplied : (l.commit tx).1.committed ≠ l.committed + 1) :
    l.fault? .commit = some e ∧ (l.commit tx).1 = (l.disarm .commit).rollback tx := by
  obtain ⟨t,found⟩ := live
  cases armed : l.fault? .commit with
  | some e' =>
    simp only [commit,armed] at failed
    cases failed
    exact ⟨rfl,by simp only [commit,armed]⟩
  | none =>
    refine absurd ?_ unapplied
    simp only [commit,armed,found]
    rcases guarded_cases ((l.apply t).discard tx) .commitAcknowledgement
      ((l.apply t).discard tx,.ok ()) with ⟨e,_,lost⟩ | ⟨_,kept⟩
    · rw [lost]
      rfl
    · rw [kept]
      rfl

inductive Refuses (planned : Prop) (l : Ledger) (tx : TxId) : Option StoreError → Ledger → Prop where
  | waits : Refuses planned l tx none l
  | struck {e : StoreError} (armed : l.fault? .commit = some e) :
      Refuses planned l tx (some e) ((l.disarm .commit).rollback tx)
  | fails {e : StoreError} (failing : planned) : Refuses planned l tx (some e) (l.discard tx)

theorem Refuses.discards {e : StoreError} (refuses : l.Refuses planned tx (some e) l')
    (sound : l.Sound) : l.Discards tx l' := by
  cases refuses with
  | struck => exact Ledger.discards sound tx (l.disarm .commit).faults (l.rolledBack + 1)
  | fails => exact Ledger.discards sound tx l.faults l.rolledBack

theorem commit_refuses (live : l.Live tx)
    (fruitless : (CallStep.mk tx .commit (.answered (l.commit tx).2)).Fruitless)
    (unapplied : (l.commit tx).1.committed ≠ l.committed + 1) :
    l.Refuses planned tx (CallStep.mk tx .commit (.answered (l.commit tx).2)).failure?
      (l.commit tx).1 := by
  cases answer : (l.commit tx).2 with
  | ok row =>
    rw [answer] at fruitless
    cases fruitless
  | error e =>
    obtain ⟨armed,refused⟩ := commit_refused live answer unapplied
    rw [refused]
    exact .struck armed

theorem Performs.refuses (performs : l.Performs planned now d l') (asked : d.call = .commit)
    (live : l.Live d.tx) (fruitless : d.Fruitless) (unapplied : l'.committed ≠ l.committed + 1) :
    l.Refuses planned d.tx d.failure? l' := by
  cases performs with
  | starts tx call =>
    dsimp only at asked
    subst asked
    cases delayed : l.commitDelay with
    | some delay =>
      simp only [start,delayed]
      exact .waits
    | none =>
      simp only [start,delayed] at fruitless unapplied ⊢
      exact commit_refuses live fruitless unapplied
  | @resumes tx call w out resumed =>
    dsimp only at asked
    subst asked
    cases resumed_of_resume resumed with
    | commits => exact commit_refuses live fruitless unapplied
  | fails failing tx call e =>
    dsimp only at asked
    subst asked
    exact .fails failing

theorem Performs.rolls (performs : l.Performs planned now d l') (asked : d.call = .rollback) :
    l' = l.rollback d.tx ∨ planned ∧ l' = l.discard d.tx := by
  cases performs with
  | starts tx call =>
    dsimp only at asked
    subst asked
    exact .inl rfl
  | resumes resumed =>
    dsimp only at asked
    subst asked
    cases resumed_of_resume resumed
  | fails failing tx call e =>
    dsimp only at asked
    subst asked
    exact .inr ⟨failing,rfl⟩

theorem Performs.rolls_discards (performs : l.Performs planned now d l') (sound : l.Sound)
    (asked : d.call = .rollback) : l.Discards d.tx l' := by
  rcases performs.rolls asked with rfl | ⟨_,rfl⟩
  · exact Ledger.discards sound d.tx l.faults (l.rolledBack + 1)
  · exact Ledger.discards sound d.tx l.faults l.rolledBack

end Ledger
end DoubleEntry
