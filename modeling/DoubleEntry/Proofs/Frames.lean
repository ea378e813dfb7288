import DoubleEntry.Proofs.AuditTrail
import DoubleEntry.Proofs.Failures
import DoubleEntry.Scenario.Command

namespace DoubleEntry

structure Pending where
  tx : TxId
  call : Call
  wait : Wait

def Client.pending? : Client → Option Pending
  | waiting tx call w => some ⟨tx,call,w⟩
  | _ => none

def Job.pending? (now : Nat) (l : Ledger) (j : Job) : Option Pending :=
  match j.stage with
  | .running _ tx _ p (some w) =>
    match p.next j.plan.movement j.plan.timeout with
    | .awaitBefore call _ =>
      if (l.resume now (tx.getD l.nextTx) call w).isNone then some ⟨tx.getD l.nextTx,call,w⟩
      else none
    | _ => none
  | _ => none

namespace Turn

-- The call that was given up in this turn. A job that steps while it would wait is late.
def quits? (t : Turn) : Option Pending :=
  match t.move with
  | .step i => t.before.jobs[i]?.bind (·.pending? t.before.clock t.before.ledger)
  | .cancel i => t.before.clients[i]?.bind Client.pending?
  | _ => none

def drops? (t : Turn) : Option TxId :=
  match t.move with
  | .abort i => t.before.jobs[i]?.bind Job.tx?
  | .drop i => t.before.clients[i]?.bind Client.tx?
  | _ => none

-- The turn of a job whose calls may fail before they reach the ledger.
def Planned (t : Turn) : Prop :=
  ∃ (i : Nat) (j : Job), t.move = .step i ∧ t.before.jobs[i]? = some j ∧ j.plan.failures ≠ []

end Turn

-- Whoever runs the transaction can make the next call in it; a transfer rolls it back.
def Bank.Ready (b : Bank) (tx : TxId) : Prop :=
  (∃ i : Nat, b.clients[i]? = some (.idle tx)) ∨
    ∃ (i : Nat) (j : Job), b.jobs[i]? = some j ∧
      ∃ n d cause, j.stage = .running n (some tx) d (.rollingBack cause) none

section Performing
variable {l l' : Ledger} {now : Nat} {d : CallStep} {c c' : Client} {j j' : Job} {call : Call}

theorem Client.make_performs {planned : Prop} (did : c.made? now l call = some d)
    (made : c.make now l call = some (l',c')) : l.Performs planned now d l' := by
  cases c with
  | waiting | gone => cases did
  | idle tx =>
    simp only [make] at made
    split at made
    · cases made
    · have settled := congrArg Prod.fst (Option.some.inj made)
      rw [settle_fst] at settled
      subst settled
      cases Option.some.inj did
      exact .starts tx call

theorem Client.resume_performs {planned : Prop} (did : c.resumed? now l = some d)
    (resumed : c.resume now l = some (l',c')) : l.Performs planned now d l' := by
  cases c with
  | idle | gone => cases did
  | waiting tx call w =>
    obtain ⟨out,answered,settled⟩ := Option.map_eq_some_iff.mp resumed
    have settled := congrArg Prod.fst settled
    rw [settle_fst] at settled
    subst settled
    rw [resumed?,answered] at did
    cases Option.some.inj did
    exact .resumes answered

theorem Job.issue_performs (j : Job) (l : Ledger) (now : Nat) (tx : TxId) (call : Call) :
    l.Performs (j.plan.failures ≠ []) now ⟨tx,call,(j.issue l now tx call).2⟩
      (j.issue l now tx call).1 := by
  unfold issue
  cases planned : j.plan.failure? j.calls call.kind with
  | none => exact .starts tx call
  | some e =>
    refine .fails ?_ tx call e
    intro plain
    simp [JobPlan.failure?,plain] at planned

theorem Job.step_performs (did : j.callStep? now l = some d)
    (stepped : j.step now l = some (l',j')) :
    l.Performs (j.plan.failures ≠ []) now d l' := by
  have issued {tx : TxId} {call : Call} {l' : Ledger} {progress : Progress call.Row}
      (issued : j.issue l now tx call = (l',progress)) :
      l.Performs (j.plan.failures ≠ []) now ⟨tx,call,progress⟩ l' := by
    have performs := issue_performs j l now tx call
    rwa [issued] at performs
  cases step_sound stepped with
  | wake stage | rest stage | finish stage =>
    simp only [callStep?,stage,Phase.next,reduceCtorEq] at did
  | await stage next made | answered stage next made | waits stage next made =>
    simp only [callStep?,stage,next,made] at did
    cases Option.some.inj did
    exact issued made
  | resumed stage next resumed | waitsOn stage next resumed =>
    simp only [callStep?,stage,next,resumed,Option.map_some] at did
    cases Option.some.inj did
    exact .resumes resumed
  | late stage next waiting =>
    simp only [callStep?,stage,next,waiting,Option.map_none,reduceCtorEq] at did

theorem Client.settle_failure {out : Ledger × Progress call.Row} {tx : TxId}
    (inside : call.Inside) (failed : (CallStep.mk tx call out.2).failure? ≠ none) :
    (settle tx call out).2 = .idle tx := by
  obtain ⟨l,progress⟩ := out
  cases progress with
  | waiting w => exact absurd rfl failed
  | answered answer => cases call <;> first | rfl | cases inside

theorem Client.idle_of_made (did : c.made? now l call = some d)
    (made : c.make now l call = some (l',c')) (inside : d.call.Inside)
    (failed : d.failure? ≠ none) : c' = .idle d.tx := by
  cases c with
  | waiting | gone => cases did
  | idle tx =>
    cases Option.some.inj did
    simp only [make] at made
    split at made
    · cases made
    · exact (congrArg Prod.snd (Option.some.inj made)).symm.trans (settle_failure inside failed)

theorem Client.idle_of_resumed (did : c.resumed? now l = some d)
    (resumed : c.resume now l = some (l',c')) (inside : d.call.Inside)
    (failed : d.failure? ≠ none) : c' = .idle d.tx := by
  cases c with
  | idle | gone => cases did
  | waiting tx call w =>
    obtain ⟨out,answered,settled⟩ := Option.map_eq_some_iff.mp resumed
    rw [resumed?,answered] at did
    cases Option.some.inj did
    exact (congrArg Prod.snd settled).symm.trans (settle_failure inside failed)

theorem Phase.rolls_of_failure {p : Phase} {m : Movement} {limit : Duration} {tx : TxId}
    {onward : Option (Except StoreError call.Row) → Phase} {answer : Except StoreError call.Row}
    (next : p.next m limit = .awaitBefore call onward) (inside : call.Inside)
    (failed : (CallStep.mk tx call (.answered answer)).failure? ≠ none) :
    ∃ cause, onward (some answer) = .rollingBack cause := by
  rcases inside_or_committing next with ⟨_,_,_,rolls⟩ | ⟨r,rfl⟩
  · cases answer with
    | ok row => exact absurd rfl failed
    | error e =>
      obtain ⟨step,rolling⟩ := rolls e
      exact ⟨_,rolling⟩
  · cases next
    cases inside

theorem Job.rolls_of_failure (did : j.callStep? now l = some d)
    (stepped : j.step now l = some (l',j')) (inside : d.call.Inside) (failed : d.failure? ≠ none) :
    ∃ n due cause, j'.stage = .running n (some d.tx) due (.rollingBack cause) none := by
  cases step_sound stepped with
  | wake stage | rest stage | finish stage =>
    simp only [callStep?,stage,Phase.next,reduceCtorEq] at did
  | @await _ _ _ p _ _ _ _ _ stage next made =>
    simp only [callStep?,stage,next,made] at did
    cases Option.some.inj did
    cases p <;> simp only [Phase.next,reduceCtorEq] at next <;> cases next <;> cases inside
  | answered stage next made =>
    simp only [callStep?,stage,next,made] at did
    cases Option.some.inj did
    obtain ⟨cause,rolling⟩ := Phase.rolls_of_failure next inside failed
    exact ⟨_,_,cause,by rw [rolling]⟩
  | waits stage next made =>
    simp only [callStep?,stage,next,made] at did
    cases Option.some.inj did
    exact absurd rfl failed
  | resumed stage next resumed =>
    simp only [callStep?,stage,next,resumed,Option.map_some] at did
    cases Option.some.inj did
    obtain ⟨cause,rolling⟩ := Phase.rolls_of_failure next inside failed
    exact ⟨_,_,cause,by rw [rolling]⟩
  | waitsOn stage next resumed =>
    simp only [callStep?,stage,next,resumed,Option.map_some] at did
    cases Option.some.inj did
    exact absurd rfl failed
  | late stage next waiting =>
    simp only [callStep?,stage,next,waiting,Option.map_none,reduceCtorEq] at did

end Performing

section Quitting
variable {l l' : Ledger} {now : Nat} {q : Pending} {c c' : Client} {j j' : Job} {id : AccountId}
  {delta : Int}

theorem Client.cancel_change (sound : l.Sound) (consistent : c.Consistent l)
    (cancelled : c.cancel l = some (l',c')) (quits : c.pending? = some q)
    (asked : q.call = .addToBalance id delta) :
    c' = .idle q.tx ∧
      (∀ row, q.wait = .row row → l' = l.updateRow id (Row.release q.tx) ∧ ¬l'.Seated q.tx id) ∧
      ∀ time, q.wait = .until time → l' = l := by
  cases consistent with
  | idle | gone => cases quits
  | @waiting tx s call w patient idle view =>
    cases Option.some.inj quits
    dsimp only at asked
    subst asked
    cases w with
    | row row =>
      cases Option.some.inj cancelled
      refine ⟨rfl,fun _ _ => ⟨rfl,Ledger.unseated_release sound view⟩,?_⟩
      rintro time ⟨⟩
    | «until» time =>
      cases Option.some.inj cancelled
      refine ⟨rfl,?_,fun _ _ => ?_⟩
      · rintro row ⟨⟩
      · exact view.leaveQueues_same sound ((TxView.sought_take s id).trans idle)

theorem Client.cancel_commit (cancelled : c.cancel l = some (l',c'))
    (quits : c.pending? = some q) (asked : q.call = .commit) : l' = l.discard q.tx := by
  cases c with
  | idle | gone => cases quits
  | waiting tx call w =>
    cases Option.some.inj quits
    dsimp only at asked
    subst asked
    cases Option.some.inj cancelled
    rfl

theorem Job.late_of_pending (stepped : j.step now l = some (l',j'))
    (quits : j.pending? now l = some q) : ∃ n tx d p onward,
      j.stage = .running n tx d p (some q.wait) ∧ q.tx = tx.getD l.nextTx ∧
      p.next j.plan.movement j.plan.timeout = .awaitBefore q.call onward ∧
      l.resume now q.tx q.call q.wait = none ∧ l' = l.giveUp q.tx q.call ∧
      j'.stage = .running n (some q.tx) d (onward none) none := by
  unfold pending? at quits
  split at quits
  · rename_i n tx d p w stage
    split at quits
    · rename_i call onward next
      split at quits
      · rename_i waiting
        cases Option.some.inj quits
        have waiting := Option.isNone_iff_eq_none.mp waiting
        simp only [step,stage,next,waiting] at stepped
        split at stepped
        · cases Option.some.inj stepped
          exact ⟨_,_,_,_,_,stage,rfl,next,waiting,rfl,rfl⟩
        · cases stepped
      · cases quits
    · cases quits
  · cases quits

theorem Job.late_change (sound : l.Sound) (consistent : j.Consistent l)
    (stepped : j.step now l = some (l',j')) (quits : j.pending? now l = some q)
    (asked : q.call = .addToBalance id delta) :
    (∃ n due cause, j'.stage = .running n (some q.tx) due (.rollingBack cause) none) ∧
      (∀ row, q.wait = .row row → l' = l.updateRow id (Row.release q.tx) ∧ ¬l'.Seated q.tx id) ∧
      ∀ time, q.wait = .until time → l' = l := by
  obtain ⟨n,tx,due,p,onward,stage,owner,next,waiting,rfl,stage'⟩ := late_of_pending stepped quits
  obtain ⟨t,s,rfl,_,rests,view⟩ := consistent_inside consistent stage next
  obtain ⟨t,call,w⟩ := q
  obtain rfl : t = _ := owner
  obtain rfl : call = _ := asked
  rcases Phase.inside_or_committing next with ⟨asks,_,rolls,_⟩ | ⟨r,rfl⟩
  · rw [← asks] at view
    rw [rolls] at stage'
    refine ⟨⟨n,due,_,stage'⟩,?_,?_⟩
    · rintro row ⟨⟩
      have unheld : ¬l.Holds t id := fun held => by
        simp [Ledger.resume,Ledger.holds_iff.mpr held] at waiting
      have left : l.giveUp t (.addToBalance id delta) = l.updateRow id (Row.release t) :=
        Ledger.HasView.leaveQueues_sought sound view unheld
      exact ⟨left,left ▸ Ledger.unseated_release sound view⟩
    · rintro time ⟨⟩
      exact view.leaveQueues_same sound ((TxView.sought_take s id).trans rests.idle)
  · cases next

theorem Job.late_commit (stepped : j.step now l = some (l',j'))
    (quits : j.pending? now l = some q) (asked : q.call = .commit) : l' = l.discard q.tx := by
  obtain ⟨n,tx,d,p,onward,stage,owner,next,waiting,rfl,stage'⟩ := late_of_pending stepped quits
  rw [asked]
  rfl

theorem Job.abort_of_tx? {t : TxId} (owns : j.tx? = some t) : (j.abort l).1 = l.discard t := by
  unfold tx? Stage.tx? at owns
  split at owns
  · cases owns
  · cases owns
  · rename_i stage
    subst owns
    simp only [abort,stage]
  · cases owns

end Quitting

namespace Turn
variable {before after : Bank} {move : Move} {d : CallStep} {q : Pending} {tx : TxId} {id : AccountId}
  {delta : Int}

inductive Does (before after : Bank) (d : CallStep) : Move → Prop where
  | steps {i : Nat} {j j' : Job} (found : before.jobs[i]? = some j)
      (stepped : j.step before.clock before.ledger = some (after.ledger,j'))
      (there : after.jobs[i]? = some j') (did : j.callStep? before.clock before.ledger = some d) :
      Does before after d (.step i)
  | calls {i : Nat} {call : Call} {c c' : Client}
      (made : c.make before.clock before.ledger call = some (after.ledger,c'))
      (there : after.clients[i]? = some c')
      (did : c.made? before.clock before.ledger call = some d) : Does before after d (.call i call)
  | resumes {i : Nat} {c c' : Client}
      (resumed : c.resume before.clock before.ledger = some (after.ledger,c'))
      (there : after.clients[i]? = some c')
      (did : c.resumed? before.clock before.ledger = some d) : Does before after d (.resume i)

theorem does_of_callStep? (advanced : before.advance move = some after)
    (did : (Turn.mk before move after).callStep? = some d) : Does before after d move := by
  cases move with
  | createAccount | arm | setLockHold | setCommitDelay | pass | launch | abort | begin | cancel
  | drop => simp only [callStep?,reduceCtorEq] at did
  | step i =>
    obtain ⟨j,l',j',found,stepped,rfl⟩ := Bank.updateJob_eq_some advanced
    have bound := (List.getElem?_eq_some_iff.mp found).1
    simp only [callStep?,found,Option.bind_some] at did
    exact .steps found stepped (List.getElem?_set_self bound) did
  | call i call =>
    obtain ⟨c,l',c',found,made,rfl⟩ := Bank.updateClient_eq_some advanced
    have bound := (List.getElem?_eq_some_iff.mp found).1
    simp only [callStep?,found,Option.bind_some] at did
    exact .calls made (List.getElem?_set_self bound) did
  | resume i =>
    obtain ⟨c,l',c',found,resumed,rfl⟩ := Bank.updateClient_eq_some advanced
    have bound := (List.getElem?_eq_some_iff.mp found).1
    simp only [callStep?,found,Option.bind_some] at did
    exact .resumes resumed (List.getElem?_set_self bound) did

-- Who has given up a call in a turn: a client that cancelled it, or a job that was late.
inductive GivesUp (before after : Bank) (q : Pending) : Prop where
  | cancels {i : Nat} {c c' : Client} (found : before.clients[i]? = some c)
      (cancelled : c.cancel before.ledger = some (after.ledger,c'))
      (there : after.clients[i]? = some c') (waits : c.pending? = some q)
  | late {i : Nat} {j j' : Job} (found : before.jobs[i]? = some j)
      (stepped : j.step before.clock before.ledger = some (after.ledger,j'))
      (there : after.jobs[i]? = some j') (waits : j.pending? before.clock before.ledger = some q)

theorem givesUp_of_quits (advanced : before.advance move = some after)
    (quits : (Turn.mk before move after).quits? = some q) : GivesUp before after q := by
  cases move with
  | createAccount | arm | setLockHold | setCommitDelay | pass | launch | abort | begin | call
  | resume | drop => simp only [quits?,reduceCtorEq] at quits
  | cancel i =>
    obtain ⟨c,l',c',found,cancelled,rfl⟩ := Bank.updateClient_eq_some advanced
    have bound := (List.getElem?_eq_some_iff.mp found).1
    simp only [quits?,found,Option.bind_some] at quits
    exact .cancels found cancelled (List.getElem?_set_self bound) quits
  | step i =>
    obtain ⟨j,l',j',found,stepped,rfl⟩ := Bank.updateJob_eq_some advanced
    have bound := (List.getElem?_eq_some_iff.mp found).1
    simp only [quits?,found,Option.bind_some] at quits
    exact .late found stepped (List.getElem?_set_self bound) quits

theorem performs (advanced : before.advance move = some after)
    (did : (Turn.mk before move after).callStep? = some d) :
    before.ledger.Performs (Turn.mk before move after).Planned before.clock d after.ledger := by
  cases does_of_callStep? advanced did with
  | @steps i j j' found stepped there callStep =>
    exact (Job.step_performs callStep stepped).mono fun planned => ⟨i,j,rfl,found,planned⟩
  | calls made there callStep => exact Client.make_performs callStep made
  | resumes resumed there callStep => exact Client.resume_performs callStep resumed

theorem working_of_callStep? (did : (Turn.mk before move after).callStep? = some d) (owner : String)
    (currency : Currency) (balance : Int) : move ≠ .createAccount owner currency balance := by
  rintro rfl
  simp only [callStep?,reduceCtorEq] at did

-- The turn concerns the transaction of its call; the others are left alone.
theorem preservesTx {history : List Turn} (runs : Runs {} history before)
    (advanced : before.advance move = some after)
    (did : (Turn.mk before move after).callStep? = some d) {other : TxId} (different : other ≠ d.tx)
    (alive : before.ledger.Live other) : before.ledger.PreservesTx other after.ledger := by
  have sound := runs_sound runs
  have serves := serves sound advanced (working_of_callStep? did)
  rw [did] at serves
  cases serves with
  | opens acts =>
    exact acts.preserves other (fun new => Ledger.not_live_nextTx sound.ledger (new ▸ alive)) alive
  | @works tx live mine works =>
    obtain rfl := mine d rfl
    have acts : before.ledger.Acts d.tx after.ledger := by
      cases works _ ((runs_reckoned runs).drafts d.tx live) with
      | goesOn acts => exact acts
      | closes closes | posts closes => exact closes.acts
    exact acts.preserves other different alive

theorem ready_of_failure (advanced : before.advance move = some after)
    (did : (Turn.mk before move after).callStep? = some d) (inside : d.call.Inside)
    (failed : d.failure? ≠ none) : after.Ready d.tx := by
  cases does_of_callStep? advanced did with
  | @steps i j j' found stepped there callStep =>
    exact .inr ⟨i,j',there,Job.rolls_of_failure callStep stepped inside failed⟩
  | @calls i call c c' made there callStep =>
    rw [Client.idle_of_made callStep made inside failed] at there
    exact .inl ⟨i,there⟩
  | @resumes i c c' resumed there callStep =>
    rw [Client.idle_of_resumed callStep resumed inside failed] at there
    exact .inl ⟨i,there⟩

theorem live_of_commit (sound : before.Sound) (did : (Turn.mk before move after).callStep? = some d)
    (asked : d.call = .commit) : before.ledger.Live d.tx := by
  rcases live_of_callStep? sound did with opening | live
  · rw [asked] at opening
    cases opening
  · exact live

theorem counted_of_unapplied (did : (Turn.mk before move after).callStep? = some d)
    (asked : d.call = .commit) (unapplied : (Turn.mk before move after).applied? = none) :
    after.ledger.committed ≠ before.ledger.committed + 1 := by
  intro counted
  rw [applied?,did,Option.bind_some,if_pos ⟨asked,counted⟩] at unapplied
  cases unapplied

theorem granted_of_fruitless (did : (Turn.mk before move after).callStep? = some d)
    (fruitless : d.Fruitless) (tx : TxId) : (Turn.mk before move after).granted tx = [] := by
  refine granted_of_nothing ?_ tx
  rw [did]
  exact CallStep.granted_fruitless fruitless

theorem handedTo_of_fruitless (did : (Turn.mk before move after).callStep? = some d)
    (fruitless : d.Fruitless) (tx : TxId) (s : Sheet) :
    (Turn.mk before move after).handedTo tx s = [] := by
  rw [handedTo,did,Option.elim_some,CallStep.handed_fruitless fruitless,ite_self]

-- A balance change that is given up while it is queued leaves the queue, and nothing else; given up
-- in the delay after it got its row, it leaves everything as it is.
theorem quits_change (sound : before.Sound) (advanced : before.advance move = some after)
    (quits : (Turn.mk before move after).quits? = some q) (asked : q.call = .addToBalance id delta) :
    after.Ready q.tx ∧
      (∀ row, q.wait = .row row →
        after.ledger = before.ledger.updateRow id (Row.release q.tx) ∧
          ¬after.ledger.Seated q.tx id) ∧
      ∀ time, q.wait = .until time → after.ledger = before.ledger := by
  cases givesUp_of_quits advanced quits with
  | @cancels i c c' found cancelled there waits =>
    obtain ⟨rfl,queued,rested⟩ :=
      Client.cancel_change sound.ledger (sound.client found) cancelled waits asked
    exact ⟨.inl ⟨i,there⟩,queued,rested⟩
  | @late i j j' found stepped there waits =>
    obtain ⟨rolls,queued,rested⟩ :=
      Job.late_change sound.ledger (sound.job found) stepped waits asked
    exact ⟨.inr ⟨i,j',there,rolls⟩,queued,rested⟩

theorem unmoved_of_quits (sound : before.Sound) (advanced : before.advance move = some after)
    (quits : (Turn.mk before move after).quits? = some q)
    (asked : q.call = .addToBalance id delta) : before.ledger.Unmoved q.tx after.ledger := by
  obtain ⟨_,queued,rested⟩ := quits_change sound advanced quits asked
  cases wait : q.wait with
  | row row =>
    rw [(queued row wait).1]
    exact Ledger.unmoved_release sound.ledger q.tx id
  | «until» time =>
    rw [rested time wait]
    exact .refl _ q.tx

theorem quits_commit (advanced : before.advance move = some after)
    (quits : (Turn.mk before move after).quits? = some q) (asked : q.call = .commit) :
    after.ledger = before.ledger.discard q.tx := by
  cases givesUp_of_quits advanced quits with
  | cancels found cancelled there waits => exact Client.cancel_commit cancelled waits asked
  | late found stepped there waits => exact Job.late_commit stepped waits asked

theorem drops_transaction (advanced : before.advance move = some after)
    (drops : (Turn.mk before move after).drops? = some tx) :
    after.ledger = before.ledger.discard tx := by
  cases move with
  | createAccount | arm | setLockHold | setCommitDelay | pass | launch | step | begin | call
  | resume | cancel => simp only [drops?,reduceCtorEq] at drops
  | drop i =>
    obtain ⟨c,l',c',found,dropped,rfl⟩ := Bank.updateClient_eq_some advanced
    simp only [drops?,found,Option.bind_some] at drops
    cases c <;> cases drops <;> cases Option.some.inj dropped <;> rfl
  | abort i =>
    obtain ⟨j,l',j',found,aborted,rfl⟩ := Bank.updateJob_eq_some advanced
    simp only [drops?,found,Option.bind_some] at drops
    split at aborted
    · have aborts := congrArg Prod.fst (Option.some.inj aborted)
      exact aborts.symm.trans (Job.abort_of_tx? drops)
    · cases aborted

end Turn

-- A commit that is applied writes what its transaction was granted and handed.
theorem applied_writes {history : List Turn} {before after : Bank} {move : Move} {tx : TxId}
    (runs : Runs {} history before) (advanced : before.advance move = some after)
    (applied : (Turn.mk before move after).applied? = some tx) :
    after.ledger.books = before.ledger.books.post
      { transfers := handedTo history tx .transfers, entries := handedTo history tx .entries
        deltas := granted history tx } := by
  have sound := runs_sound runs
  obtain ⟨d,did,applied⟩ := Option.bind_eq_some_iff.mp applied
  split at applied
  · rename_i committed
    obtain ⟨asked,counted⟩ := committed
    cases Option.some.inj applied
    have unsame : after.ledger.committed ≠ before.ledger.committed := by
      change after.ledger.committed = before.ledger.committed + 1 at counted
      omega
    have live := Turn.live_of_commit sound did asked
    have serves := Turn.serves sound advanced (Turn.working_of_callStep? did)
    have trails := Turn.trails sound advanced
    rw [did] at serves trails
    have accounts : after.ledger.books.accounts =
        before.ledger.books.accounts.map (·.adding (granted history d.tx)) := by
      cases serves with
      | opens _ _ same => exact absurd same unsame
      | @works tx _ mine works =>
        obtain rfl := mine d rfl
        cases works _ ((runs_reckoned runs).drafts d.tx live) with
        | goesOn _ quiet | closes _ quiet => exact absurd quiet.committed unsame
        | posts _ _ _ accounts => exact accounts
    have sheet : ∀ s, after.ledger.sheet s = before.ledger.sheet s ++ handedTo history d.tx s := by
      intro s
      cases trails with
      | files files =>
        cases files with
        | keeps _ _ same => exact absurd same unsame
        | posts _ _ sheet => rw [sheet,(runs_filed runs).pending d.tx live]
    have entries : after.ledger.books.entries = before.ledger.books.entries ++ _ := sheet .entries
    have transfers : after.ledger.books.transfers = before.ledger.books.transfers ++ _ :=
      sheet .transfers
    change Books.mk after.ledger.books.accounts after.ledger.books.entries
      after.ledger.books.transfers = _
    rw [accounts,entries,transfers]
    rfl
  · cases applied

theorem failure_framed {history : List Turn} {b after : Bank} {move : Move}
    (runs : Runs {} history b) (advanced : b.advance move = some after) :
    let t : Turn := ⟨b,move,after⟩
    -- A call inside a transaction that fails or has to wait moves nothing but, perhaps, one armed
    -- failure and the transaction's seat at the row that was asked for.
    (∀ d ∈ t.callStep?, d.call.Inside → d.Fruitless →
      b.ledger.Unmoved d.tx after.ledger ∧ b.ledger.Leaves d after.ledger ∧
        (d.failure? ≠ none → after.Ready d.tx)) ∧
    -- A balance change that is given up leaves the queue in which it stands. In the delay after it
    -- got its row it leaves everything as it is.
    (∀ q ∈ t.quits?, ∀ id delta, q.call = .addToBalance id delta →
      b.ledger.Unmoved q.tx after.ledger ∧ after.Ready q.tx ∧
        (∀ row, q.wait = .row row →
          after.ledger = b.ledger.updateRow id (Row.release q.tx) ∧
            ¬after.ledger.Seated q.tx id) ∧
        ∀ time, q.wait = .until time → after.ledger = b.ledger) ∧
    -- A transaction that is not committed goes alone: its commit was refused or given up, it was
    -- rolled back, or it was dropped.
    (∀ d ∈ t.callStep?, d.call = .commit → d.Fruitless → t.applied? = none →
      b.ledger.Refuses t.Planned d.tx d.failure? after.ledger ∧
        (d.failure? ≠ none → b.ledger.Discards d.tx after.ledger)) ∧
    (∀ d ∈ t.callStep?, d.call = .rollback → b.ledger.Discards d.tx after.ledger ∧
      (after.ledger = b.ledger.rollback d.tx ∨
        t.Planned ∧ after.ledger = b.ledger.discard d.tx)) ∧
    (∀ tx, tx ∈ t.drops? ∨ (∃ q ∈ t.quits?, q.call = .commit ∧ q.tx = tx) →
      b.ledger.Discards tx after.ledger ∧ after.ledger = b.ledger.discard tx) ∧
    -- Only calls that succeed add to what a commit writes, and a commit that is applied writes that.
    (∀ d ∈ t.callStep?, d.Fruitless → ∀ tx, granted (history ++ [t]) tx = granted history tx ∧
      ∀ s, handedTo (history ++ [t]) tx s = handedTo history tx s) ∧
    (∀ tx ∈ t.applied?, after.ledger.books = b.ledger.books.post
      { transfers := handedTo history tx .transfers, entries := handedTo history tx .entries
        deltas := granted history tx }) ∧
    -- To look at an account moves nothing at all.
    ∀ (w : World) name id, (w.perform (.getAccount name id)).1 = w := by
  intro t
  have sound := runs_sound runs
  refine ⟨?_,?_,?_,?_,?_,?_,?_,?_⟩
  · intro d did inside fruitless
    have leaves := (Turn.performs advanced did).leaves inside fruitless
    refine ⟨leaves.unmoved fun other different alive => ?_,leaves,?_⟩
    · exact Turn.preservesTx runs advanced did different alive
    · exact Turn.ready_of_failure advanced did inside
  · intro q quits id delta asked
    exact ⟨Turn.unmoved_of_quits sound advanced quits asked,
      Turn.quits_change sound advanced quits asked⟩
  · intro d did asked fruitless unapplied
    have live := Turn.live_of_commit sound did asked
    have counted := Turn.counted_of_unapplied did asked unapplied
    have refuses := (Turn.performs advanced did).refuses asked live fruitless counted
    refine ⟨refuses,fun failed => ?_⟩
    obtain ⟨e,failed⟩ := Option.ne_none_iff_exists'.mp failed
    rw [failed] at refuses
    exact refuses.discards sound.ledger
  · intro d did asked
    have performs := Turn.performs advanced did
    exact ⟨performs.rolls_discards sound.ledger asked,performs.rolls asked⟩
  · intro tx gone
    have discarded : after.ledger = b.ledger.discard tx := by
      rcases gone with drops | ⟨q,quits,asked,rfl⟩
      · exact Turn.drops_transaction advanced drops
      · exact Turn.quits_commit advanced quits asked
    refine ⟨?_,discarded⟩
    rw [discarded]
    exact Ledger.discards sound.ledger tx b.ledger.faults b.ledger.rolledBack
  · intro d did fruitless tx
    refine ⟨?_,fun s => ?_⟩
    · rw [granted_snoc,Turn.granted_of_fruitless did fruitless,List.append_nil]
    · rw [handedTo_snoc,Turn.handedTo_of_fruitless did fruitless,List.append_nil]
  · intro tx applied
    exact applied_writes runs advanced applied
  · intro w name id
    simp only [World.perform,World.within]
    cases w.session? name <;> rfl

-- Two transactions have drafts. The first then asks for a free row whose account cannot bear more.
def stumbling : List Move :=
  [.createAccount "alice" .eur 9223372036854775807,.createAccount "bob" .eur 0,
    .createAccount "carol" .eur 0,.begin,.begin,
    .call 1 (.addToBalance 2 7),.call 0 (.addToBalance 3 5),.call 0 (.insertEntry 3 5)]

theorem stumbling_ends : (Bank.replay {} stumbling).isSome = true := by decide +kernel

def stumblingRun : List Turn × Bank := (Bank.replay {} stumbling).get stumbling_ends

theorem stumbles : (stumblingRun.2.advance (.call 0 (.addToBalance 1 1))).isSome = true := by
  decide +kernel

def stumbled : Bank := (stumblingRun.2.advance (.call 0 (.addToBalance 1 1))).get stumbles

theorem failure_framed_stumbling :
    stumblingRun.2.ledger.locked 0 = [3] ∧ stumbled.ledger.locked 0 = [1,3] ∧
      stumbled.ledger.locked 1 = [2] ∧
      ∃ d, (Turn.mk stumblingRun.2 (.call 0 (.addToBalance 1 1)) stumbled).callStep? = some d ∧
        d.failure? = some (.constraint "balance out of range for account 1") ∧
        stumblingRun.2.ledger.Unmoved d.tx stumbled.ledger ∧ stumbled.Ready d.tx ∧
        handedTo (stumblingRun.1 ++ [⟨stumblingRun.2,.call 0 (.addToBalance 1 1),stumbled⟩]) 0
          .entries = handedTo stumblingRun.1 0 .entries := by
  have runs : Runs {} stumblingRun.1 stumblingRun.2 := runs_of_ends stumbling_ends
  have advanced : stumblingRun.2.advance (.call 0 (.addToBalance 1 1)) = some stumbled :=
    (Option.some_get stumbles).symm
  obtain ⟨inside,_,_,_,_,nothing,_⟩ := failure_framed runs advanced
  have here : stumblingRun.2.clients[0]? = some (.idle 0) := by decide +kernel
  let d : CallStep := ⟨0,.addToBalance 1 1,(stumblingRun.2.ledger.start stumblingRun.2.clock 0
    (.addToBalance 1 1)).2⟩
  have did : (Turn.mk stumblingRun.2 (.call 0 (.addToBalance 1 1)) stumbled).callStep? = some d := by
    simp only [Turn.callStep?,here,Option.bind_some]
    rfl
  have failed : d.failure? = some (.constraint "balance out of range for account 1") := by
    decide +kernel
  have fruitless := CallStep.fruitless_of_failure failed
  obtain ⟨unmoved,_,ready⟩ := inside d did trivial fruitless
  refine ⟨by decide +kernel,by decide +kernel,by decide +kernel,d,did,failed,unmoved,ready ?_,?_⟩
  · rw [failed]
    simp
  · exact (nothing d did fruitless 0).2 .entries

end DoubleEntry
