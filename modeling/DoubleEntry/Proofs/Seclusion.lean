import DoubleEntry.Proofs.CallEffects
import DoubleEntry.Proofs.Currencies
import DoubleEntry.Proofs.Timetables

namespace DoubleEntry

namespace Ledger
variable {l l' l'' : Ledger} {tx : TxId} {id : AccountId} {call : Call} {now : Nat}

-- No setting is changed, no failure armed, and nobody takes a seat but at the row that is asked for.
structure Confined (call : Call) (l l' : Ledger) : Prop where
  lockHold : l'.lockHold = l.lockHold
  commitDelay : l'.commitDelay = l.commitDelay
  unarmed : l.faults = [] → l'.faults = []
  seats : ∀ tx id, l'.Seated tx id → l.Seated tx id ∨ ∃ delta, call = .addToBalance id delta

theorem Confined.trans (one : Confined call l l') (two : Confined call l' l'') :
    Confined call l l'' := by
  refine ⟨two.lockHold.trans one.lockHold,two.commitDelay.trans one.commitDelay,
    fun unarmed => two.unarmed (one.unarmed unarmed),?_⟩
  intro tx id seated
  rcases two.seats tx id seated with before | asked
  · exact one.seats tx id before
  · exact .inr asked

theorem confined_of_map {f : Row → Row} (rows : l'.rows = l.rows.map f)
    (same : ∀ r, (f r).id = r.id)
    (left : ∀ id r, l.row? id = some r → ∀ tx ∈ (f r).seats, tx ∈ r.seats)
    (lockHold : l'.lockHold = l.lockHold) (commitDelay : l'.commitDelay = l.commitDelay)
    (unarmed : l.faults = [] → l'.faults = []) : Confined call l l' := by
  refine ⟨lockHold,commitDelay,unarmed,?_⟩
  rintro tx id ⟨r',found',member⟩
  rw [row?_map rows same] at found'
  obtain ⟨r,found,rfl⟩ := Option.map_eq_some_iff.mp found'
  exact .inl ⟨r,found,left id r found tx member⟩

theorem confined_of_rows (rows : l'.rows = l.rows) (lockHold : l'.lockHold = l.lockHold)
    (commitDelay : l'.commitDelay = l.commitDelay) (unarmed : l.faults = [] → l'.faults = []) :
    Confined call l l' :=
  confined_of_map (by rw [rows,List.map_id']) (fun _ => rfl) (fun _ _ _ _ member => member) lockHold
    commitDelay unarmed

theorem Confined.refl (l : Ledger) : Confined call l l := confined_of_rows rfl rfl rfl (·)

theorem confined_disarm (l : Ledger) (p : FaultPoint) : Confined call l (l.disarm p) := by
  refine confined_of_rows rfl rfl rfl ?_
  intro unarmed
  simp [disarm,unarmed]

theorem unarmed_of_sublist {faults : List (FaultPoint × StoreError)}
    (used : faults.Sublist l.faults) (unarmed : l.faults = []) : faults = [] :=
  List.sublist_nil.mp (unarmed ▸ used)

theorem confined_discard (sound : l.Sound) (tx : TxId) {faults : List (FaultPoint × StoreError)}
    (used : faults.Sublist l.faults) (rolledBack : Nat) :
    Confined call l { l.discard tx with faults := faults, rolledBack := rolledBack } := by
  have rows : (l.discard tx).rows = l.rows.map (Row.release tx) := rfl
  refine confined_of_map rows (Row.id_release tx) ?_ rfl rfl (unarmed_of_sublist used)
  intro id r found seen member
  rw [Row.seats_release (sound.orderly id r found)] at member
  exact (List.mem_filter.mp member).1

theorem confined_leaveQueues (l : Ledger) (tx : TxId) : Confined call l (l.leaveQueues tx) := by
  have rows : (l.leaveQueues tx).rows = l.rows.map (Row.leave tx) := rfl
  refine confined_of_map rows (Row.id_leave tx) ?_ rfl rfl (·)
  intro id r _ seen member
  rcases Row.mem_seats.mp member with holder | queued
  · exact Row.mem_seats.mpr (.inl holder)
  · exact Row.mem_seats.mpr (.inr (List.mem_filter.mp queued).1)

theorem confined_post (sound : l.Sound) (t : Tx) (tx : TxId)
    {faults : List (FaultPoint × StoreError)} (used : faults.Sublist l.faults) :
    Confined call l { (l.apply t).discard tx with faults := faults } := by
  have rows : ((l.apply t).discard tx).rows = l.rows.map (Row.release tx ∘ posted t) := by
    rw [← List.map_map,← rows_apply]
    rfl
  refine confined_of_map rows (fun r => (Row.id_release tx _).trans (id_posted t r)) ?_ rfl rfl
    (unarmed_of_sublist used)
  intro id r found seen member
  have orderly : (posted t r).Orderly :=
    ⟨(sound.orderly id r found).distinct,(sound.orderly id r found).vacant⟩
  rw [Function.comp,Row.seats_release orderly] at member
  exact (List.mem_filter.mp member).1

theorem confined_request (l : Ledger) (tx : TxId) (id : AccountId) (delta : Int) :
    Confined (.addToBalance id delta) l (l.updateRow id (Row.request tx)) := by
  refine ⟨rfl,rfl,(·),?_⟩
  rintro tx' seen ⟨r',found',member⟩
  rw [row?_updateRow (Row.id_request tx)] at found'
  obtain ⟨r,found,rfl⟩ := Option.map_eq_some_iff.mp found'
  by_cases here : seen = id
  · exact .inr ⟨delta,by rw [here]⟩
  · rw [onRow_ne here found] at member
    exact .inl ⟨r,found,member⟩

theorem Affects.confined (affects : l.Affects tx call l') (sound : l.Sound) :
    Confined call l l' := by
  cases affects with
  | keeps => exact .refl l
  | strikes p => exact confined_disarm l p
  | opens | records | enters | drafts => exact confined_of_rows rfl rfl rfl (·)
  | asks => exact confined_request l tx _ _
  | takes => exact (confined_request l tx _ _).trans (confined_of_rows rfl rfl rfl (·))
  | closes _ used rolledBack => exact confined_discard sound tx used rolledBack
  | commits _ used => exact confined_post sound _ tx used

theorem giveUp_confined (sound : l.Sound) (tx : TxId) (call : Call) :
    Confined call l (l.giveUp tx call) := by
  cases call with
  | commit => exact confined_discard sound tx (.refl _) l.rolledBack
  | begin | insertTransfer | insertEntry | addToBalance | rollback =>
    exact confined_leaveQueues l tx

end Ledger

namespace Job
variable {l l' : Ledger} {j j' : Job} {now : Nat}

theorem issue_confined (sound : l.Sound) (j : Job) (now : Nat) (tx : TxId) (call : Call) :
    l.Confined call (j.issue l now tx call).1 := by
  rcases issue_cases j l now tx call with ⟨e,failed⟩ | started
  · rw [failed]
    cases call with
    | commit | rollback => exact Ledger.confined_discard sound tx (.refl _) l.rolledBack
    | begin | insertTransfer | insertEntry | addToBalance => exact .refl l
  · rw [started]
    exact (Ledger.start_affects l now tx call).confined sound

theorem step_confined (sound : l.Sound) (stepped : j.step now l = some (l',j')) :
    ∃ call, l.Confined call l' ∧
      ∀ id delta, call = .addToBalance id delta → j.plan.movement.Touches id := by
  have asked {p : Phase} {call : Call} {onward : Option (Except StoreError call.Row) → Phase}
      (next : p.next j.plan.movement j.plan.timeout = .awaitBefore call onward) :
      ∀ id delta, call = .addToBalance id delta → j.plan.movement.Touches id := by
    rintro id delta rfl
    exact Phase.touches_of_asks (Phase.asks_of_next next).symm
  cases step_sound stepped with
  | wake | rest | finish => exact ⟨.begin,.refl l,by simp⟩
  | @await _ _ tx p _ call _ _ _ _ next issued =>
    have confined := issue_confined sound j now (tx.getD l.nextTx) call
    rw [issued] at confined
    refine ⟨call,confined,?_⟩
    rintro id delta rfl
    cases p <;> simp only [Phase.next,reduceCtorEq] at next <;> cases next
  | @answered _ _ tx _ call _ _ _ _ next issued | @waits _ _ tx _ call _ _ _ _ next issued =>
    have confined := issue_confined sound j now (tx.getD l.nextTx) call
    rw [issued] at confined
    exact ⟨call,confined,asked next⟩
  | resumed _ next resumed | waitsOn _ next resumed =>
    exact ⟨_,(Ledger.resume_affects resumed).confined sound,asked next⟩
  | late _ next => exact ⟨_,Ledger.giveUp_confined sound _ _,asked next⟩

end Job

namespace Stage
variable {plan : JobPlan} {stage stage' : Stage} {r : Receipt}

theorem Succeeded.ended (succeeded : stage.Succeeded r) :
    stage.call? = none ∧ stage.interruptible = false := by
  cases stage with
  | resting | cancelled => cases succeeded
  | finished => exact ⟨rfl,rfl⟩
  | running n tx d p w =>
    cases p with
    | ended outcome => exact ⟨rfl,rfl⟩
    | _ => cases succeeded

theorem Follows.succeeds (follows : Follows plan stage stage') (succeeded : stage.Succeeded r) :
    stage'.Succeeded r := by
  cases follows with
  | goesOn unended =>
    have ended := succeeded.ended.1
    rw [call?_running unended] at ended
    cases ended
  | rests again =>
    cases succeeded
    cases again
  | finishes => exact succeeded
  | wakes => cases succeeded

end Stage

def Unwritten (history : List Turn) (i : Nat) : Prop :=
  ∀ t ∈ history, t.move = .step i → ¬t.Changes

theorem Unwritten.earlier {history more : List Turn} (unwritten : Unwritten (history ++ more) i) :
    Unwritten history i :=
  fun t member => unwritten t (List.mem_append_left _ member)

theorem Unwritten.snoc {history : List Turn} {t : Turn} (unwritten : Unwritten history i)
    (last : t.move = .step i → ¬t.Changes) : Unwritten (history ++ [t]) i := by
  intro t' member
  rcases List.mem_append.mp member with before | now
  · exact unwritten t' before
  · cases List.mem_singleton.mp now
    exact last

section Running
variable {origin b : Bank} {later : List Turn} {i : Nat} {j : Job} {time : Timetable}

-- As long as no failure is armed, a job that has written has succeeded.
theorem runs_unwritten (runs : Runs origin later b) (sound : origin.Sound)
    (favours : ∀ t ∈ later, t.before.Favours time i) (found : origin.jobs[i]? = some j) :
    ∃ j', b.jobs[i]? = some j' ∧ j'.plan = j.plan ∧
      ((∃ r, j'.stage.Succeeded r) ∨ Unwritten later i) := by
  suffices both : b.Sound ∧ ∃ j', b.jobs[i]? = some j' ∧ j'.plan = j.plan ∧
      ((∃ r, j'.stage.Succeeded r) ∨ Unwritten later i) from both.2
  induction runs with
  | nil => exact ⟨sound,j,found,rfl,.inr (by simp [Unwritten])⟩
  | @step history before move after _ advanced ih =>
    obtain ⟨sound',j₁,found₁,plan,so⟩ := ih fun t member => favours t (List.mem_append_left _ member)
    have favours := favours _ (List.mem_append_right _ (List.mem_singleton_self _))
    have advances := sound'.advances advanced
    refine ⟨advances.sound sound',?_⟩
    cases advances.concerns i with
    | launches _ absent =>
      rw [absent] at found₁
      cases found₁
    | passes foreign same =>
      refine ⟨j₁,same.trans found₁,plan,so.imp_right fun unwritten => unwritten.snoc ?_⟩
      rintro rfl
      exact absurd rfl foreign
    | aborts here found₂ free found' =>
      cases Option.some.inj (found₁.symm.trans found₂)
      refine ⟨_,found',plan,.inr ?_⟩
      rcases so with ⟨r,succeeded⟩ | unwritten
      · rw [succeeded.ended.2] at free
        cases free
      · refine unwritten.snoc ?_
        rintro rfl
        cases here
    | @steps _ j' here found₂ found' moves =>
      cases Option.some.inj (found₁.symm.trans found₂)
      refine ⟨j',found',moves.plan.trans plan,?_⟩
      cases moves.does with
      | quietly quiet follows =>
        rcases so with ⟨r,succeeded⟩ | unwritten
        · exact .inl ⟨r,follows.succeeds succeeded⟩
        · exact .inr (unwritten.snoc fun _ => Turn.not_changes_of_quiet quiet)
      | writes _ _ _ answered =>
        left
        rw [answered]
        exact ⟨_,rfl⟩
      | unacknowledged stage _ armed =>
        have unarmed : before.ledger.faults = [] := (favours j₁ found₁ (by rw [stage]; rfl)).unarmed
        simp [Ledger.fault?,unarmed] at armed

end Running

-- The job has the rows of the movement to itself. Whoever else is under way has other accounts to
-- move, and what stands at these is what stood there at first, unless the job itself has written.
structure Secluded (origin : Bank) (m : Movement) (i : Nat) (later : List Turn) (b : Bank) :
    Prop where
  unarmed : b.ledger.faults = []
  lockHold : b.ledger.lockHold = origin.ledger.lockHold
  commitDelay : b.ledger.commitDelay = origin.ledger.commitDelay
  apart : ∀ id, m.Touches id → ∀ tx, b.ledger.Seated tx id → b.tx? i = some tx
  others : ∀ (k : Nat) j, k ≠ i → b.jobs[k]? = some j → j.stage.settled = false →
    ∀ id, m.Touches id → ¬j.plan.movement.Touches id
  kept : Unwritten later i → ∀ id, m.Touches id →
    b.ledger.account? id = origin.ledger.account? id

theorem Ledger.account?_enter {l l' : Ledger} {m : Movement} {r : Receipt}
    (entered : l'.books = l.books.enter m r) (id : AccountId) :
    l'.account? id = (l.account? id).map m.shift := by
  rw [account?_books,account?_books,entered]
  simp only [Books.enter,List.find?_map]
  rfl

theorem Movement.shift_of_not_touches {m : Movement} {a : Account} (untouched : ¬m.Touches a.id) :
    m.shift a = a := by
  simp [shift,change_of_not_touches untouched]

theorem Job.Moves.account? {l l' : Ledger} {j j' : Job} {id : AccountId} (moves : j.Moves l l' j')
    (untouched : ¬j.plan.movement.Touches id) : l'.account? id = l.account? id := by
  cases moves.does with
  | quietly quiet => rw [Ledger.account?_books,quiet.books,← Ledger.account?_books]
  | writes _ writes | unacknowledged _ writes =>
    rw [Ledger.account?_enter writes.books]
    cases found : l.account? id with
    | none => rfl
    | some a =>
      rw [← Ledger.id_of_account? found] at untouched
      rw [Option.map_some,Movement.shift_of_not_touches untouched]

namespace Secluded
variable {origin before after : Bank} {m : Movement} {i k : Nat} {later : List Turn}

theorem apart_step {j j' : Job} {l' : Ledger} (secluded : Secluded origin m i later before)
    (sound : before.Sound) (found : before.jobs[k]? = some j)
    (stepped : j.step before.clock before.ledger = some (l',j')) {id : AccountId}
    (touched : m.Touches id) {tx : TxId} (seated : l'.Seated tx id) :
    (before.jobs.set k j')[i]?.bind Job.tx? = some tx := by
  have moves := Job.step_moves sound.ledger (sound.job found) stepped
  by_cases own : k = i
  · subst own
    rw [List.getElem?_set_self (List.getElem?_eq_some_iff.mp found).1,Option.bind_some]
    have live := moves.acts.sound.seated id tx seated
    have mine : tx = j.acting before.ledger := by
      by_contra other
      have preserved := moves.acts.preserves tx other (moves.acts.live tx other live)
      have before' := preserved.seated.mp seated
      have held := secluded.apart id touched tx before'
      rw [Bank.tx?,found,Option.bind_some] at held
      exact other (by rw [Job.acting,held]; rfl)
    rw [mine] at live ⊢
    rcases moves.owns with owns | ⟨_,gone⟩
    · exact owns
    · exact absurd live gone
  · obtain ⟨call,confined,mine⟩ := Job.step_confined sound.ledger stepped
    rw [List.getElem?_set_ne own]
    rcases confined.seats tx id seated with old | ⟨delta,asked⟩
    · exact secluded.apart id touched tx old
    · exact absurd (mine id delta asked) (secluded.others k j own found moves.unsettled id touched)

theorem step (secluded : Secluded origin m i later before) (sound : before.Sound)
    (advanced : before.advance (.step k) = some after) :
    Secluded origin m i (later ++ [⟨before,.step k,after⟩]) after := by
  obtain ⟨j,l',j',found,stepped,rfl⟩ := Bank.updateJob_eq_some advanced
  have moves := Job.step_moves sound.ledger (sound.job found) stepped
  obtain ⟨call,confined,_⟩ := Job.step_confined sound.ledger stepped
  refine ⟨confined.unarmed secluded.unarmed,confined.lockHold.trans secluded.lockHold,
    confined.commitDelay.trans secluded.commitDelay,
    fun id touched tx seated => secluded.apart_step sound found stepped touched seated,?_,?_⟩
  · intro k' other different found' going id touched
    by_cases here : k = k'
    · subst here
      rw [List.getElem?_set_self (List.getElem?_eq_some_iff.mp found).1] at found'
      cases Option.some.inj found'
      rw [moves.plan]
      exact secluded.others k j different found moves.unsettled id touched
    · rw [List.getElem?_set_ne here] at found'
      exact secluded.others k' other different found' going id touched
  · intro unwritten id touched
    have kept := secluded.kept unwritten.earlier id touched
    by_cases own : k = i
    · subst own
      have same : l'.books = before.ledger.books := by
        by_contra changed
        exact unwritten _ (List.mem_append_right _ (List.mem_singleton_self _)) rfl changed
      rw [Ledger.account?_books,same,← Ledger.account?_books]
      exact kept
    · have apart := secluded.others k j own found moves.unsettled id touched
      exact (moves.account? apart).trans kept

theorem flow {move : Move} (secluded : Secluded origin m i later before) (sound : before.Sound)
    (flows : move.Flows) (advanced : before.advance move = some after) :
    Secluded origin m i (later ++ [⟨before,move,after⟩]) after := by
  cases move with
  | step k => exact secluded.step sound advanced
  | pass ms =>
    cases Option.some.inj advanced
    exact ⟨secluded.unarmed,secluded.lockHold,secluded.commitDelay,secluded.apart,secluded.others,
      fun unwritten => secluded.kept unwritten.earlier⟩
  | _ => cases flows

theorem favours {b : Bank} {j : Job} {time : Timetable} (secluded : Secluded origin m i later b)
    (affords : origin.ledger.Affords m) (hold : lasting origin.ledger.lockHold = time.hold)
    (commit : lasting origin.ledger.commitDelay = time.commit) (unwritten : Unwritten later i)
    (found : b.jobs[i]? = some j) (movement : j.plan.movement = m) : time.Favours b.ledger j := by
  have kept := secluded.kept unwritten
  refine ⟨secluded.lockHold ▸ hold,secluded.commitDelay ▸ commit,secluded.unarmed,?_,?_⟩
  · rw [movement]
    refine ⟨?_,?_⟩
    · rw [kept m.source (.inl rfl)]
      exact affords.source
    · rw [kept m.destination (.inr rfl)]
      exact affords.destination
  · rw [movement]
    intro id touched tx seated
    have own := secluded.apart id touched tx seated
    rwa [Bank.tx?,found,Option.bind_some] at own

end Secluded

section Flowing
variable {origin b : Bank} {later : List Turn} {i : Nat} {j : Job}

-- Where transfers only go on by themselves, one that has its rows to itself keeps them and is
-- favoured all the time.
theorem runs_secluded (time : Timetable) (runs : Runs origin later b)
    (flows : ∀ t ∈ later, t.move.Flows) (sound : origin.Sound) (found : origin.jobs[i]? = some j)
    (start : Secluded origin j.plan.movement i [] origin)
    (affords : origin.ledger.Affords j.plan.movement)
    (hold : lasting origin.ledger.lockHold = time.hold)
    (commit : lasting origin.ledger.commitDelay = time.commit) :
    b.Sound ∧ Secluded origin j.plan.movement i later b ∧
      ∀ t ∈ later, t.before.Favours time i := by
  induction runs with
  | nil => exact ⟨sound,start,by simp⟩
  | @step history before move after runs advanced ih =>
    obtain ⟨sound',secluded,favours⟩ := ih fun t member => flows t (List.mem_append_left _ member)
    have flowing := flows _ (List.mem_append_right _ (List.mem_singleton_self _))
    refine ⟨(sound'.advances advanced).sound sound',secluded.flow sound' flowing advanced,?_⟩
    intro t member
    rcases List.mem_append.mp member with earlier | last
    · exact favours t earlier
    · cases List.mem_singleton.mp last
      intro j₁ found₁ here
      obtain ⟨j₂,found₂,plan,so⟩ := runs_unwritten runs sound favours found
      cases Option.some.inj (found₁.symm.trans found₂)
      rcases so with ⟨r,succeeded⟩ | unwritten
      · rw [succeeded.ended.1] at here
        cases here
      · exact secluded.favours affords hold commit unwritten found₁ (by rw [plan])

end Flowing

end DoubleEntry
