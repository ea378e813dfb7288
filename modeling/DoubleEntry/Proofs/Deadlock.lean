import Mathlib.Logic.Relation
import DoubleEntry.Proofs.Postings
import DoubleEntry.Proofs.Stillness

namespace DoubleEntry

theorem Movement.updates_ascend {m : Movement} (different : m.source ≠ m.destination) :
    m.updates.1.account < m.updates.2.account := by
  unfold updates lockOrder
  split
  · rename_i below
    exact Int.lt_iff_le_and_ne.mpr ⟨below,different⟩
  · rename_i above
    exact Int.not_le.mp above

namespace Phase
variable {m : Movement} {l : Ledger} {t : TxId} {s : TxView} {p : Phase} {id : AccountId}
  {delta : Int}

theorem asks_of_next {call : Call} {onward : Option (Except StoreError call.Row) → Phase}
    (next : p.next m limit = .awaitBefore call onward) : call = p.asks m := by
  cases p <;> simp only [Phase.next,reduceCtorEq] at next
  all_goals cases next; rfl

-- A transfer asks for its rows in ascending order.
theorem Rests.below (rests : p.Rests m l t s) (different : m.source ≠ m.destination)
    (asks : p.asks m = .addToBalance id delta) : ∀ seen ∈ s.held, seen < id := by
  intro seen held
  cases p with
  | opening | ended => cases rests
  | recording | debiting | crediting | committing | rollingBack =>
    simp only [Phase.asks,reduceCtorEq] at asks
  | updatingFirst transfer debit credit =>
    obtain ⟨_,_,_,rfl⟩ := rests
    cases held
  | updatingSecond transfer debit credit first =>
    obtain ⟨_,_,_,rfl,_⟩ := rests
    cases List.mem_singleton.mp held
    cases asks
    exact Movement.updates_ascend different

end Phase

namespace Ledger
variable {l l' : Ledger} {tx : TxId} {call : Call} {id : AccountId}

theorem asks_of_start (started : l.start now tx call = (l',.waiting (.row id))) :
    ∃ delta, call = .addToBalance id delta := by
  cases pauses_of_start started with
  | @queued _ delta => exact ⟨delta,rfl⟩

theorem Sound.holder_of_seated (sound : l.Sound) (seated : l.Seated tx id)
    (unheld : ¬l.Holds tx id) : ∃ holder, l.Holds holder id ∧ l.Live holder := by
  obtain ⟨r,found,member⟩ := seated
  have queued : tx ∈ r.queue :=
    (Row.mem_seats.mp member).resolve_left fun holder => unheld ⟨r,found,holder⟩
  cases holder : r.holder with
  | none =>
    rw [(sound.orderly id r found).vacant holder] at queued
    cases queued
  | some t =>
    have held : l.Holds t id := ⟨r,found,holder⟩
    exact ⟨t,held,sound.seated id t held.seated⟩

theorem Sound.le_of_holds (sound : l.Sound) (held : l.Holds tx id) : id ≤ l.rows.length := by
  obtain ⟨r,found,_⟩ := held
  exact sound.le_of_mem_balances (mem_balances_of_account? (account?_of_row? found))

end Ledger

def Stage.row? : Stage → Option AccountId
  | running _ _ _ _ (some (.row id)) => some id
  | _ => none

namespace Job
variable {l l' : Ledger} {j j' : Job} {now : Nat}

def Asks (j : Job) : Prop :=
  ∀ n tx d p id, j.stage = .running n tx d p (some (.row id)) →
    ∃ delta, p.asks j.plan.movement = .addToBalance id delta

theorem step_asks (stepped : j.step now l = some (l',j')) : j'.Asks := by
  intro _ _ _ _ _ stage'
  cases step_sound stepped with
  | wake | rest | finish | await | answered | resumed | late => cases stage'
  | waits stage next issued =>
    cases stage'
    rw [← Phase.asks_of_next next]
    rcases issue_cases j l now _ _ with ⟨e,failed⟩ | started
    · cases failed.symm.trans issued
    · exact Ledger.asks_of_start (started.symm.trans issued)
  | waitsOn stage next resumed =>
    cases stage'
    obtain ⟨_,delay,same⟩ := Ledger.waits_of_resume resumed
    cases same

theorem start_asks (now : Nat) (l : Ledger) (plan : JobPlan) : (start now l plan).Asks := by
  intro _ _ _ _ _ here
  rcases start_stage now l plan with stage | ⟨e,stage⟩
  · cases stage.symm.trans here
  · cases stage.symm.trans here

theorem waits_of_still {n d : Nat} {tx : Option TxId} {p : Phase} {w : Option Wait}
    (stage : j.stage = .running n tx d p w) (still : j.step now l = none) :
    ∃ call onward wait, p.next j.plan.movement j.plan.timeout = .awaitBefore call onward ∧
      w = some wait := by
  simp only [step,stage] at still
  split at still
  · split at still <;> cases still
  · rename_i call onward next
    split at still
    · cases still
    · rename_i issued
      have waits := issue_waits issued
      cases p <;> simp only [Phase.next,reduceCtorEq] at next
      all_goals
        cases next
        cases waits
  · split at still <;> cases still
  · rename_i call onward wait next
    exact ⟨call,onward,wait,next,rfl⟩

theorem step_of_ready {n d : Nat} {tx : Option TxId} {p : Phase}
    (stage : j.stage = .running n tx d p none) : j.step now l ≠ none := by
  intro still
  obtain ⟨_,_,_,_,same⟩ := waits_of_still stage still
  cases same

-- A job that has been given the row it waited for goes on at once.
theorem step_of_granted {n d : Nat} {t : TxId} {p : Phase} {id : AccountId} (asks : j.Asks)
    (fits : j.Fits) (stage : j.stage = .running n (some t) d p (some (.row id)))
    (held : l.Holds t id) : j.step now l ≠ none := by
  intro still
  obtain ⟨delta,asked⟩ := asks _ _ _ _ _ stage
  obtain ⟨call,onward,next,_⟩ := fits _ _ _ _ _ stage
  obtain rfl := (Phase.asks_of_next next).trans asked
  simp only [step,stage,next,Option.getD_some,Ledger.resume,Ledger.holds_iff.mpr held] at still
  split at still
  · cases still
  · cases still
  · rename_i waiting
    cases waiting

theorem goes_on (unsettled : j.stage.settled = false) (asks : j.Asks) (fits : j.Fits)
    (granted : ∀ id, j.stage.row? = some id → ∃ tx ∈ j.tx?, l.Holds tx id) :
    j.step now l ≠ none ∨
      j.stage.row? = none ∧ ∃ time, j.stage.due = some time ∧ now < time := by
  cases stepped : j.step now l with
  | some next => exact .inl (by simp)
  | none =>
    right
    cases stage : j.stage with
    | finished | cancelled =>
      rw [stage] at unsettled
      cases unsettled
    | resting n time =>
      have due : j.stage.due = some time := by rw [stage]; rfl
      exact ⟨rfl,time,rfl,due_later fits stepped due⟩
    | running n tx d p w =>
      rcases w with _ | (id | time)
      · exact absurd stepped (step_of_ready stage)
      · obtain ⟨t,own,held⟩ := granted id (by rw [stage]; rfl)
        obtain rfl : tx = some t := by
          rw [Job.tx?,stage] at own
          cases p <;> cases own <;> rfl
        exact absurd stepped (step_of_granted asks fits stage held)
      · have due : j.stage.due = some (min time d) := by rw [stage]; rfl
        exact ⟨rfl,min time d,rfl,due_later fits stepped due⟩

end Job

namespace Bank
variable {b : Bank} {i k : Nat} {id seen : AccountId}

def Holds (b : Bank) (i : Nat) (id : AccountId) : Prop := ∃ tx ∈ b.tx? i, b.ledger.Holds tx id

-- A row that has passed to the job in the meantime is not waited for any more.
def Waits (b : Bank) (i : Nat) (id : AccountId) : Prop :=
  b.jobs[i]?.bind (·.stage.row?) = some id ∧ ¬b.Holds i id

def WaitsFor (b : Bank) (i k : Nat) : Prop := ∃ id, b.Waits i id ∧ b.Holds k id

def Unfinished (b : Bank) (i : Nat) : Prop := b.jobs[i]?.map (·.stage.settled) = some false

def Owned (b : Bank) : Prop := ∀ tx, b.ledger.Live tx → ∃ i, b.tx? i = some tx

instance (b : Bank) (i : Nat) (id : AccountId) : Decidable (b.Holds i id) :=
  decidable_of_iff ((b.tx? i).any (b.ledger.holds · id) = true) (by
    unfold Holds
    cases b.tx? i <;> simp [Ledger.holds_iff])

instance (b : Bank) (i : Nat) (id : AccountId) : Decidable (b.Waits i id) :=
  inferInstanceAs (Decidable (_ ∧ _))

instance (b : Bank) (i : Nat) : Decidable (b.Unfinished i) :=
  inferInstanceAs (Decidable (_ = _))

section Ownership
variable {j j' : Job} {l' : Ledger}

theorem Owned.setJob (owned : b.Owned) (found : b.jobs[i]? = some j)
    (acts : b.ledger.Acts (j.acting b.ledger) l')
    (owns : j'.tx? = some (j.acting b.ledger) ∨ ¬l'.Live (j.acting b.ledger)) :
    Owned { b with ledger := l', jobs := b.jobs.set i j' } := by
  have bound := (List.getElem?_eq_some_iff.mp found).1
  intro tx live
  by_cases mine : tx = j.acting b.ledger
  · rcases owns with kept | gone
    · refine ⟨i,?_⟩
      simp only [Bank.tx?,List.getElem?_set_self bound,Option.bind_some,kept,mine]
    · exact absurd (mine ▸ live) gone
  · obtain ⟨k,theirs⟩ := owned tx (acts.live tx mine live)
    have other : i ≠ k := by
      rintro rfl
      have own : j.tx? = some tx := by simpa only [Bank.tx?,found,Option.bind_some] using theirs
      exact mine (by rw [Job.acting,own]; rfl)
    refine ⟨k,?_⟩
    simpa only [Bank.tx?,List.getElem?_set_ne other] using theirs

theorem Owned.launch (owned : b.Owned) (plan : JobPlan) :
    Owned { b with jobs := b.jobs ++ [Job.start b.clock b.ledger plan] } := by
  intro tx live
  obtain ⟨k,theirs⟩ := owned tx live
  obtain ⟨j,found,own⟩ := Option.bind_eq_some_iff.mp theirs
  have earlier : k ≠ b.jobs.length := Nat.ne_of_lt (List.getElem?_eq_some_iff.mp found).1
  refine ⟨k,?_⟩
  simpa only [Bank.tx?,getElem?_concat_ne earlier] using theirs

theorem Owned.advance {move : Move} {after : Bank} (owned : b.Owned) (sound : b.Sound)
    (ours : move.Transferring) (advanced : b.advance move = some after) : after.Owned := by
  cases move with
  | createAccount | arm | setLockHold | setCommitDelay | pass =>
    cases Option.some.inj advanced
    exact owned
  | launch plan =>
    cases Option.some.inj advanced
    exact owned.launch plan
  | step i =>
    obtain ⟨j,l',j',found,stepped,rfl⟩ := Bank.updateJob_eq_some advanced
    have moves := Job.step_moves sound.ledger (sound.job found) stepped
    exact owned.setJob found moves.acts (moves.owns.imp_right And.right)
  | abort i =>
    obtain ⟨j,l',j',found,aborted,rfl⟩ := Bank.updateJob_eq_some advanced
    split at aborted
    · rename_i free
      obtain ⟨closes,_⟩ := Job.abort_closes sound.ledger (sound.job found) free
      rw [Option.some.inj aborted] at closes
      exact owned.setJob found closes.acts (.inr closes.gone)
    · cases aborted
  | begin | call | resume | cancel | drop => cases ours

end Ownership

section Chains

-- Whoever waits sits at the row it waits for, and holds only rows below it.
theorem Waits.consistent (waits : b.Waits i id) (sound : b.Sound)
    (asking : ∀ j ∈ b.jobs, j.Asks) :
    ∃ tx, b.tx? i = some tx ∧ b.ledger.Seated tx id ∧ ¬b.ledger.Holds tx id ∧
      ∀ seen, b.ledger.Holds tx seen → seen < id := by
  obtain ⟨row,unheld⟩ := waits
  obtain ⟨j,found,waiting⟩ := Option.bind_eq_some_iff.mp row
  cases stage : j.stage with
  | resting | finished | cancelled =>
    rw [stage] at waiting
    cases waiting
  | running n tx d p w =>
    rw [stage] at waiting
    obtain rfl : w = some (.row id) := by
      unfold Stage.row? at waiting
      split at waiting
      · rename_i same
        cases same
        cases waiting
        rfl
      · cases waiting
    obtain ⟨delta,asks⟩ := asking j (List.mem_of_getElem? found) n tx d p id stage
    cases sound.job found n tx d p _ stage with
    | ended => cases asks
    | @inside t s _ _ checked rests view =>
      rw [asks] at view
      have own : b.tx? i = some t := by
        simp only [Bank.tx?,found,Option.bind_some,Job.tx?,stage,Job.tx?_of_rests rests]
      have foreign : ¬b.ledger.Holds t id := fun held => unheld ⟨t,own,held⟩
      refine ⟨t,own,view.sought id rfl,foreign,?_⟩
      intro seen held
      rcases view.seated seen held.seated with already | sought
      · exact rests.below (Movement.check_eq_ok.mp checked).1 asks seen already
      · cases Option.some.inj sought
        exact absurd held foreign

theorem Waits.lt (waits : b.Waits i id) (sound : b.Sound) (asking : ∀ j ∈ b.jobs, j.Asks)
    (held : b.Holds i seen) : seen < id := by
  obtain ⟨tx,own,_,_,below⟩ := waits.consistent sound asking
  obtain ⟨tx',own',held⟩ := held
  cases Option.some.inj (own.symm.trans own')
  exact below seen held

-- Nobody waits for a row that is free.
theorem Waits.holder (waits : b.Waits i id) (sound : b.Sound) (asking : ∀ j ∈ b.jobs, j.Asks)
    (owned : b.Owned) : ∃ k, b.Holds k id := by
  obtain ⟨tx,_,seated,unheld,_⟩ := waits.consistent sound asking
  obtain ⟨holder,held,live⟩ := sound.ledger.holder_of_seated seated unheld
  obtain ⟨k,own⟩ := owned holder live
  exact ⟨k,holder,own,held⟩

theorem Holds.unfinished (held : b.Holds k id) : b.Unfinished k := by
  obtain ⟨tx,own,_⟩ := held
  obtain ⟨j,found,owns⟩ := Option.bind_eq_some_iff.mp own
  unfold Job.tx? at owns
  cases stage : j.stage with
  | resting | finished | cancelled =>
    rw [stage] at owns
    cases owns
  | running => simp [Unfinished,found,stage,Stage.settled]

theorem rises_of_chain (sound : b.Sound) (asking : ∀ j ∈ b.jobs, j.Asks)
    (chain : Relation.TransGen b.WaitsFor i k) :
    ∃ id seen, b.Waits i id ∧ b.Holds k seen ∧ id ≤ seen := by
  induction chain with
  | single last =>
    obtain ⟨id,waits,held⟩ := last
    exact ⟨id,id,waits,held,Int.le_refl id⟩
  | tail _ last ih =>
    obtain ⟨id,seen,waits,held,rising⟩ := ih
    obtain ⟨next,waits',held'⟩ := last
    exact ⟨id,next,waits,held',Int.le_trans rising (Int.le_of_lt (waits'.lt sound asking held))⟩

theorem nearer {top low high : Int} (higher : low < high) (inside : high ≤ top) :
    (top - high).toNat < (top - low).toNat := by
  omega

theorem free_of_waits (sound : b.Sound) (asking : ∀ j ∈ b.jobs, j.Asks) (owned : b.Owned)
    (i : Nat) (id : AccountId) (waits : b.Waits i id) :
    ∃ k, b.Unfinished k ∧ ∀ seen, ¬b.Waits k seen := by
  obtain ⟨k,held⟩ := waits.holder sound asking owned
  by_cases stuck : ∃ next, b.Waits k next
  · obtain ⟨next,waits'⟩ := stuck
    have higher : id < next := waits'.lt sound asking held
    obtain ⟨_,_,_,held'⟩ := waits'.holder sound asking owned
    have inside : next ≤ b.ledger.rows.length := sound.ledger.le_of_holds held'
    exact free_of_waits sound asking owned k next waits'
  · exact ⟨k,held.unfinished,fun seen waits' => stuck ⟨seen,waits'⟩⟩
termination_by ((b.ledger.rows.length : Int) - id).toNat
decreasing_by exact nearer higher inside

theorem free_of_unfinished (sound : b.Sound) (asking : ∀ j ∈ b.jobs, j.Asks) (owned : b.Owned)
    (somebody : ∃ i, b.Unfinished i) : ∃ i, b.Unfinished i ∧ ∀ id, ¬b.Waits i id := by
  obtain ⟨i,unfinished⟩ := somebody
  by_cases stuck : ∃ id, b.Waits i id
  · obtain ⟨id,waits⟩ := stuck
    exact free_of_waits sound asking owned i id waits
  · exact ⟨i,unfinished,fun id waits => stuck ⟨id,waits⟩⟩

end Chains

def GoesOn (b : Bank) (i : Nat) : Prop :=
  b.advance (.step i) ≠ none ∨
    ∃ j, b.jobs[i]? = some j ∧ j.stage.row? = none ∧
      ∃ time, j.stage.due = some time ∧ b.clock < time

theorem granted_of_free {j : Job} (found : b.jobs[i]? = some j) (free : ∀ id, ¬b.Waits i id) :
    ∀ id, j.stage.row? = some id → ∃ tx ∈ j.tx?, b.ledger.Holds tx id := by
  intro id row
  have here : b.jobs[i]?.bind (·.stage.row?) = some id := by simpa only [found,Option.bind_some]
  obtain ⟨tx,own,held⟩ := Classical.byContradiction fun unheld => free id ⟨here,unheld⟩
  exact ⟨tx,by simpa only [Bank.tx?,found,Option.bind_some] using own,held⟩

theorem goesOn_of_free (unfinished : b.Unfinished i) (free : ∀ id, ¬b.Waits i id)
    (asking : ∀ j ∈ b.jobs, j.Asks) (fitting : ∀ j ∈ b.jobs, j.Fits) : b.GoesOn i := by
  obtain ⟨j,found,unsettled⟩ := Option.map_eq_some_iff.mp unfinished
  have member := List.mem_of_getElem? found
  rcases Job.goes_on unsettled (asking j member) (fitting j member)
    (granted_of_free found free) with steps | waits
  · refine .inl ?_
    simpa only [advance,updateJob,found,ne_eq,Option.map_eq_none_iff] using steps
  · exact .inr ⟨j,found,waits⟩

end Bank

section Running
variable {history : List Turn} {b : Bank}

-- What holds of every job at its launch and after every step of its own holds of all jobs.
theorem runs_jobs {P : Job → Prop} (runs : Runs {} history b)
    (launched : ∀ now l plan, P (.start now l plan))
    (stepped : ∀ now l (j : Job) l' j', j.step now l = some (l',j') → P j')
    (cancelled : ∀ j : Job, P { j with stage := .cancelled }) : ∀ j ∈ b.jobs, P j := by
  refine (runs.kept (P := fun _ b => ∀ j ∈ b.jobs, P j) (by simp) ?_).2
  intro history before move after _ sound advanced all j member
  obtain ⟨i,found⟩ := List.mem_iff_getElem?.mp member
  cases (sound.advances advanced).concerns i with
  | passes _ same => exact all j (List.mem_of_getElem? (same ▸ found))
  | launches _ _ found' =>
    cases Option.some.inj (found'.symm.trans found)
    exact launched _ _ _
  | aborts _ _ _ found' =>
    cases Option.some.inj (found'.symm.trans found)
    exact cancelled _
  | steps here found₁ =>
    subst here
    obtain ⟨j₁,l',j',_,stepped',rfl⟩ := Bank.updateJob_eq_some advanced
    have bound := (List.getElem?_eq_some_iff.mp found₁).1
    rw [List.getElem?_set_self bound] at found
    cases Option.some.inj found
    exact stepped _ _ _ _ _ stepped'

theorem runs_asks (runs : Runs {} history b) : ∀ j ∈ b.jobs, j.Asks := by
  refine runs_jobs runs Job.start_asks (fun _ _ _ _ _ => Job.step_asks) ?_
  intro j _ _ _ _ _ here
  cases here

theorem runs_fits (runs : Runs {} history b) : ∀ j ∈ b.jobs, j.Fits := by
  refine runs_jobs runs Job.start_fits (fun _ _ _ _ _ => Job.step_fits) ?_
  intro j _ _ _ _ _ here
  cases here

theorem runs_owned (runs : Runs {} history b) (transferring : Transferring history) : b.Owned := by
  refine (runs.kept (P := fun history b => Transferring history → b.Owned) ?_ ?_).2 transferring
  · rintro _ tx ⟨t,found⟩
    cases found
  · intro history before move after _ sound advanced owned transferring
    have ours : move.Transferring := transferring ⟨before,move,after⟩ (by simp)
    exact (owned transferring.earlier).advance sound ours advanced

theorem no_deadlock (runs : Runs {} history b) (transferring : Transferring history) :
    -- Whoever waits for a row holds only rows below it,
    (∀ i id seen, b.Waits i id → b.Holds i seen → seen < id) ∧
    -- waits because another one holds it,
    (∀ i id, b.Waits i id → ∃ k, b.WaitsFor i k) ∧
    -- and never, through however many others, for itself.
    (∀ i, ¬Relation.TransGen b.WaitsFor i i) ∧
    -- So somebody can always go on.
    ((∃ i, b.Unfinished i) → ∃ i, b.Unfinished i ∧ (∀ id, ¬b.Waits i id) ∧ b.GoesOn i) := by
  have sound := runs_sound runs
  have asking := runs_asks runs
  have owned := runs_owned runs transferring
  refine ⟨?_,?_,?_,?_⟩
  · intro i id seen waits held
    exact waits.lt sound asking held
  · intro i id waits
    obtain ⟨k,held⟩ := waits.holder sound asking owned
    exact ⟨k,id,waits,held⟩
  · intro i circle
    obtain ⟨id,seen,waits,held,rising⟩ := Bank.rises_of_chain sound asking circle
    exact Int.not_lt.mpr rising (waits.lt sound asking held)
  · intro somebody
    obtain ⟨i,unfinished,free⟩ := Bank.free_of_unfinished sound asking owned somebody
    exact ⟨i,unfinished,free,Bank.goesOn_of_free unfinished free asking (runs_fits runs)⟩

end Running

-- The third transfer waits for the second, and the second for the first.
def chained : List Move :=
  [.createAccount "alice" .eur 1000,.createAccount "bob" .eur 500,.createAccount "carol" .eur 0,
    .launch { request := { source := 2, destination := 3, amount := 10 } },
    .launch { request := { source := 1, destination := 2, amount := 20 } },
    .launch { request := { source := 3, destination := 1, amount := 30 } },
    .step 0,.step 0,.step 0,.step 0,.step 0,.step 0,.step 1,.step 1,.step 1,.step 1,.step 1,.step 1,
    .step 2,.step 2,.step 2,.step 2,.step 2]

theorem chained_ends : (Bank.replay {} chained).isSome = true := by decide +kernel

def chainedRun : List Turn × Bank := (Bank.replay {} chained).get chained_ends

theorem no_deadlock_chained :
    Runs {} chainedRun.1 chainedRun.2 ∧ Transferring chainedRun.1 ∧
      chainedRun.2.Waits 2 1 ∧ chainedRun.2.Holds 1 1 ∧ chainedRun.2.Waits 1 2 ∧
      chainedRun.2.Holds 0 2 ∧ ¬Relation.TransGen chainedRun.2.WaitsFor 1 1 ∧
      ∃ i, chainedRun.2.Unfinished i ∧ (∀ id, ¬chainedRun.2.Waits i id) ∧
        chainedRun.2.GoesOn i := by
  have runs : Runs {} chainedRun.1 chainedRun.2 := runs_of_ends chained_ends
  have transferring : Transferring chainedRun.1 := by
    unfold Transferring
    decide +kernel
  obtain ⟨_,_,circles,idle⟩ := no_deadlock runs transferring
  refine ⟨runs,transferring,?_,?_,?_,?_,circles 1,idle ⟨0,by decide +kernel⟩⟩
  all_goals decide +kernel

end DoubleEntry
