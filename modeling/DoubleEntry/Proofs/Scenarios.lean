import Mathlib.Data.List.Nodup
import DoubleEntry.Proofs.Stillness
import DoubleEntry.Proofs.VirtualTime
import DoubleEntry.Scenario.Command

namespace DoubleEntry

def World.bank (w : World) (clients : List Client) : Bank := ⟨w.clock,w.ledger,w.jobs,clients⟩

def Leads (b b' : Bank) : Prop := ∃ history, Runs b history b' ∧ Timely history

namespace Leads
variable {b b' b'' : Bank}

theorem refl (b : Bank) : Leads b b := ⟨[],.nil,by simp [Timely]⟩

theorem trans (one : Leads b b') (two : Leads b' b'') : Leads b b'' := by
  obtain ⟨earlier,first,timely⟩ := one
  obtain ⟨later,second,timely'⟩ := two
  exact ⟨earlier ++ later,first.append second,timely.append timely'⟩

theorem move (move : Move) (timely : (Turn.mk b move b').Timely)
    (advanced : b.advance move = some b') : Leads b b' :=
  ⟨[⟨b,move,b'⟩],.step .nil advanced,by simpa [Timely] using timely⟩

theorem sound (leads : Leads b b') (sound : b.Sound) : b'.Sound := by
  obtain ⟨history,runs,-⟩ := leads
  induction runs with
  | nil => exact sound
  | step _ advanced before => exact (before.advances advanced).sound before

end Leads

-- One bank becomes the other by nothing but transfers that go on by themselves.
def Flows (b b' : Bank) : Prop :=
  ∃ history, Runs b history b' ∧ Timely history ∧ ∀ t ∈ history, t.move.Flows

namespace Flows
variable {b b' b'' : Bank}

theorem refl (b : Bank) : Flows b b := ⟨[],.nil,by simp [Timely],by simp⟩

theorem trans (one : Flows b b') (two : Flows b' b'') : Flows b b'' := by
  obtain ⟨earlier,first,timely,moves⟩ := one
  obtain ⟨later,second,timely',moves'⟩ := two
  refine ⟨earlier ++ later,first.append second,timely.append timely',?_⟩
  intro t member
  exact (List.mem_append.mp member).elim (moves t) (moves' t)

theorem move (move : Move) (flows : move.Flows) (timely : (Turn.mk b move b').Timely)
    (advanced : b.advance move = some b') : Flows b b' :=
  ⟨[⟨b,move,b'⟩],.step .nil advanced,by simpa [Timely] using timely,by simpa using flows⟩

theorem leads (flows : Flows b b') : Leads b b' := by
  obtain ⟨history,runs,timely,_⟩ := flows
  exact ⟨history,runs,timely⟩

end Flows

-- For a transaction that only queues for the row, giving the row back is leaving the queue.
theorem Ledger.release_of_queued {l : Ledger} {tx : TxId} {s : TxView} {id : AccountId}
    (sound : l.Sound) (view : l.HasView tx s) (sought : s.sought = some id)
    (queued : ¬l.Holds tx id) : l.updateRow id (Row.release tx) = l.leaveQueues tx := by
  have rows : l.rows.map (onRow id (Row.release tx)) = l.rows.map (Row.leave tx) := by
    apply List.map_congr_left
    intro r member
    have found := sound.row?_id member
    unfold onRow
    split
    · rename_i here
      have unheld : r.holder ≠ some tx := fun holder => queued ⟨r,here ▸ found,holder⟩
      exact if_neg unheld
    · rename_i elsewhere
      have absent : tx ∉ r.queue := by
        intro waiting
        rcases view.seated r.id ⟨r,found,Row.mem_seats.mpr (.inr waiting)⟩ with held | here
        · obtain ⟨r',found',holder⟩ := view.holds r.id held
          cases Option.some.inj (found.symm.trans found')
          exact (sound.orderly r.id r found).not_queued holder waiting
        · exact elsewhere (Option.some.inj (here.symm.trans sought))
      have kept : r.queue.filter (· ≠ tx) = r.queue := by
        rw [List.filter_eq_self]
        intro other member
        have different : other ≠ tx := fun same => absent (same ▸ member)
        simpa using different
      rw [Row.leave,kept]
  unfold Ledger.leaveQueues
  rw [← rows]
  rfl

namespace World
variable {w w' w'' : World} {clients : List Client}

def Fits (w : World) : Prop := ∀ j ∈ w.jobs, j.Fits

structure GoesOn (w w' : World) : Prop where
  flows : ∀ clients, Flows (w.bank clients) (w'.bank clients)
  sessions : w'.sessions = w.sessions
  fits : w'.Fits
  clock : w.clock ≤ w'.clock

theorem GoesOn.refl (fits : w.Fits) : w.GoesOn w :=
  ⟨fun _ => .refl _,rfl,fits,Nat.le_refl _⟩

theorem GoesOn.leads (goes : w.GoesOn w') (clients : List Client) :
    Leads (w.bank clients) (w'.bank clients) := (goes.flows clients).leads

theorem GoesOn.trans (one : w.GoesOn w') (two : w'.GoesOn w'') : w.GoesOn w'' :=
  ⟨fun clients => (one.flows clients).trans (two.flows clients),two.sessions.trans one.sessions,
    two.fits,Nat.le_trans one.clock two.clock⟩

theorem step_goes (fits : w.Fits) (stepped : w.step = some w') : w.GoesOn w' := by
  obtain ⟨i,j,l',j',found,moved,rfl⟩ := step_eq_some stepped
  refine ⟨?_,rfl,?_,Nat.le_refl _⟩
  · intro clients
    refine .move (.step i) trivial trivial ?_
    simp only [Bank.advance,Bank.updateJob,bank,found,moved,Option.map_some]
  · intro k member
    rcases List.mem_or_eq_of_mem_set member with old | rfl
    · exact fits k old
    · exact Job.step_fits moved

theorem settleWithin_goes {n : Nat} (fits : w.Fits) : w.GoesOn (settleWithin n w) := by
  induction n generalizing w with
  | zero => exact .refl fits
  | succ n ih =>
    simp only [settleWithin]
    split
    · rename_i w' stepped
      have first := step_goes fits stepped
      exact first.trans (ih first.fits)
    · exact .refl fits

theorem settle_goes (fits : w.Fits) : w.GoesOn w.settle := settleWithin_goes fits

theorem clock_settleWithin (n : Nat) (w : World) : (settleWithin n w).clock = w.clock := by
  induction n generalizing w with
  | zero => rfl
  | succ n ih =>
    simp only [settleWithin]
    split
    · rename_i w' stepped
      obtain ⟨_,_,_,_,_,_,rfl⟩ := step_eq_some stepped
      exact ih _
    · rfl

theorem clock_settle (w : World) : w.settle.clock = w.clock := clock_settleWithin _ w

theorem pass_goes (fits : w.Fits) (still : w.Still) {time : Nat} (later : w.clock ≤ time)
    (sleeping : ∀ t, w.nextDue = some t → time ≤ t) : w.GoesOn { w with clock := time } := by
  refine ⟨?_,rfl,fits,later⟩
  intro clients
  refine .move (.pass (time - w.clock)) trivial ?_ ?_
  · intro j member
    refine ⟨by rw [bank,still.job j member]; rfl,?_⟩
    intro due own
    rw [bank,Nat.add_sub_cancel' later]
    obtain ⟨t,before,next⟩ := nextDue_of_due member own
    exact Nat.le_trans (sleeping t next) before
  · simp only [Bank.advance,bank,Nat.add_sub_cancel' later]

theorem runWithin_goes {limit : Option Nat} {done : World → Bool} {n : Nat} (fits : w.Fits)
    (ahead : ∀ u, limit = some u → w.clock ≤ u) :
    w.GoesOn (runWithin limit done n w) ∧
      ∀ u, limit = some u → (runWithin limit done n w).clock ≤ u := by
  induction n generalizing w with
  | zero => exact ⟨.refl fits,ahead⟩
  | succ n ih =>
    have settled := settle_goes fits
    have still := settle_still w
    have first_of {t : Nat} (next : w.settle.nextDue = some t) :
        ∀ t', w.settle.nextDue = some t' → t ≤ t' := fun t' next' =>
      Nat.le_of_eq (Option.some.inj (next.symm.trans next'))
    rw [← clock_settle w] at ahead
    simp only [runWithin]
    split
    · exact ⟨settled,ahead⟩
    · split
      · rename_i t u next
        have later := lt_nextDue still settled.fits next
        split
        · rename_i within
          have passed := pass_goes settled.fits still (Nat.le_of_lt later) (first_of next)
          obtain ⟨goes,bound⟩ := ih (w := { w.settle with clock := t }) passed.fits
            (fun u' same => Option.some.inj same ▸ within)
          exact ⟨(settled.trans passed).trans goes,bound⟩
        · rename_i beyond
          have passed := pass_goes settled.fits still (ahead u rfl) fun t' next' =>
            Nat.le_trans (Nat.le_of_not_le beyond) (first_of next t' next')
          exact ⟨settled.trans passed,fun u' same => Option.some.inj same ▸ Nat.le_refl u⟩
      · rename_i t next
        have later := lt_nextDue still settled.fits next
        have passed := pass_goes settled.fits still (Nat.le_of_lt later) (first_of next)
        obtain ⟨goes,bound⟩ := ih (w := { w.settle with clock := t }) passed.fits (by simp)
        exact ⟨(settled.trans passed).trans goes,bound⟩
      · rename_i u never
        have passed := pass_goes settled.fits still (ahead u rfl) fun t next => by
          cases never.symm.trans next
        exact ⟨settled.trans passed,fun u' same => Option.some.inj same ▸ Nat.le_refl u⟩
      · exact ⟨settled,by simp⟩

theorem runUntil_goes (limit : Option Nat) (done : World → Bool) (fits : w.Fits)
    (ahead : ∀ u, limit = some u → w.clock ≤ u) :
    w.GoesOn (w.runUntil limit done) ∧
      ∀ u, limit = some u → (w.runUntil limit done).clock ≤ u :=
  runWithin_goes fits ahead

section Calls
variable {k : Nat} {tx : TxId} {call : Call} {l' : Ledger}

structure Calls (k : Nat) (tx : TxId) (call : Call) (clients : List Client) (w w' : World) :
    Prop where
  leads : Leads (w.bank clients) (w'.bank (clients.set k (Client.afterAnswer tx call)))
  sessions : w'.sessions = w.sessions
  fits : w'.Fits

theorem GoesOn.calls (goes : w.GoesOn w') (calls : Calls k tx call clients w' w'') :
    Calls k tx call clients w w'' :=
  ⟨(goes.leads clients).trans calls.leads,calls.sessions.trans goes.sessions,calls.fits⟩

theorem Calls.onward {c : Client} (moved : Leads (w.bank clients) (w'.bank (clients.set k c)))
    (sessions : w'.sessions = w.sessions) (calls : Calls k tx call (clients.set k c) w' w'') :
    Calls k tx call clients w w'' := by
  have leads := calls.leads
  rw [List.set_set] at leads
  exact ⟨moved.trans leads,calls.sessions.trans sessions,calls.fits⟩

theorem getElem?_set_of_some {c c' : Client} (here : clients[k]? = some c) :
    (clients.set k c')[k]? = some c' :=
  List.getElem?_set_self (List.getElem?_eq_some_iff.mp here).1

theorem calls_resumed {wait : Wait} {answer : Except StoreError call.Row} (fits : w.Fits)
    (here : clients[k]? = some (.waiting tx call wait))
    (resumed : w.ledger.resume w.clock tx call wait = some (l',.answered answer)) :
    Calls k tx call clients w { w with ledger := l' } := by
  refine ⟨.move (.resume k) trivial ?_,rfl,fits⟩
  simp only [Bank.advance,Bank.updateClient,bank,here,Client.resume,resumed,Option.map_some,
    Client.settle]

theorem calls_cancelled {time : Nat} (fits : w.Fits)
    (here : clients[k]? = some (.waiting tx call (.until time))) :
    Calls k tx call clients w { w with ledger := w.ledger.giveUp tx call } := by
  refine ⟨.move (.cancel k) trivial ?_,rfl,fits⟩
  simp only [Bank.advance,Bank.updateClient,bank,here,Client.cancel,Option.map_some]

theorem awaitAnswer_until {n : Nat} {time : Nat} {deadline : Option Nat} (fits : w.Fits)
    (here : clients[k]? = some (.waiting tx call (.until time))) (later : w.clock ≤ time)
    (ahead : ∀ u, deadline = some u → w.clock ≤ u) :
    Calls k tx call clients w (awaitAnswer tx call deadline (n + 1) w (.until time)).1 := by
  have goes := (runUntil_goes (some (deadline.elim time (min time)))
    (fun w => (w.ledger.resume w.clock tx call (.until time)).isSome) fits ?_).1
  · simp only [awaitAnswer]
    split
    · exact goes.calls (calls_cancelled goes.fits here)
    · rename_i resumed
      exact goes.calls (calls_resumed goes.fits here resumed)
    · rename_i resumed
      obtain ⟨⟨id,row⟩,_⟩ := Ledger.waits_of_resume resumed
      cases row
  · intro u same
    cases Option.some.inj same
    cases deadline with
    | none => exact later
    | some u => exact Nat.le_min.mpr ⟨later,ahead u rfl⟩

theorem calls_delayed {n time : Nat} {asked : AccountId} {deadline : Option Nat} (fits : w.Fits)
    (here : clients[k]? = some (.waiting tx call (.row asked)))
    (resumed : w.ledger.resume w.clock tx call (.row asked) = some (l',.waiting (.until time)))
    (later : w.clock ≤ time) (ahead : ∀ u, deadline = some u → w.clock ≤ u) :
    Calls k tx call clients w
      (awaitAnswer tx call deadline (n + 1) { w with ledger := l' } (.until time)).1 := by
  have moved : Leads (w.bank clients)
      (({ w with ledger := l' } : World).bank
        (clients.set k (.waiting tx call (.until time)))) := by
    refine .move (.resume k) trivial ?_
    simp only [Bank.advance,Bank.updateClient,bank,here,Client.resume,resumed,Option.map_some,
      Client.settle]
  exact .onward moved rfl (awaitAnswer_until fits (getElem?_set_of_some here) later ahead)

theorem calls_unserved {asked : AccountId} (sound : (w.bank clients).Sound) (fits : w.Fits)
    (waits : call.Waits (.row asked))
    (here : clients[k]? = some (.waiting tx call (.row asked)))
    (waiting : w.ledger.resume w.clock tx call (.row asked) = none) :
    Calls k tx call clients w { w with ledger := w.ledger.giveUp tx call } := by
  cases call with
  | begin | insertTransfer | insertEntry | commit | rollback => cases waits
  | addToBalance id delta =>
    have queued : ¬w.ledger.Holds tx id := by
      intro held
      simp only [Ledger.resume,Ledger.holds_iff.mpr held,if_true,reduceCtorEq] at waiting
    have consistent : (Client.waiting tx (.addToBalance id delta) (.row asked)).Consistent w.ledger :=
      sound.client here
    cases consistent with
    | waiting _ _ view =>
      have same : w.ledger.updateRow id (Row.release tx) = w.ledger.leaveQueues tx :=
        Ledger.release_of_queued sound.ledger view rfl queued
      refine ⟨.move (.cancel k) trivial ?_,rfl,fits⟩
      simp only [Bank.advance,Bank.updateClient,bank,here,Client.cancel,Option.map_some,same]
      rfl

theorem awaitAnswer_row {n : Nat} {asked : AccountId} {deadline : Option Nat}
    (sound : (w.bank clients).Sound) (fits : w.Fits) (waits : call.Waits (.row asked))
    (here : clients[k]? = some (.waiting tx call (.row asked)))
    (ahead : ∀ u, deadline = some u → w.clock ≤ u) :
    Calls k tx call clients w (awaitAnswer tx call deadline (n + 2) w (.row asked)).1 := by
  obtain ⟨goes,bound⟩ := runUntil_goes deadline
    (fun w => (w.ledger.resume w.clock tx call (.row asked)).isSome) fits ahead
  have sound' := (goes.leads clients).sound sound
  simp only [awaitAnswer]
  split
  · rename_i waiting
    exact goes.calls (calls_unserved sound' goes.fits waits here waiting)
  · rename_i resumed
    exact goes.calls (calls_resumed goes.fits here resumed)
  · rename_i l' wait resumed
    obtain ⟨_,delay,same⟩ := Ledger.waits_of_resume resumed
    subst same
    exact goes.calls (calls_delayed goes.fits here resumed (le_restUntil _ delay) bound)

theorem call_calls (deadline : Option Nat) (sound : (w.bank clients).Sound) (fits : w.Fits)
    (here : clients[k]? = some (.idle tx)) (inside : call ≠ .begin)
    (ahead : ∀ u, deadline = some u → w.clock ≤ u) :
    Calls k tx call clients w (w.call tx call deadline).1 := by
  have made {l' : Ledger} {c : Client}
      (settled : Client.settle tx call (w.ledger.start w.clock tx call) = (l',c)) :
      Leads (w.bank clients) (({ w with ledger := l' } : World).bank (clients.set k c)) := by
    refine .move (.call k call) trivial ?_
    simp only [Bank.advance,Bank.updateClient,bank,here,Client.make,if_neg inside,settled,
      Option.map_some]
  unfold World.call
  split
  · rename_i l' answer started
    exact ⟨made (by rw [started]; rfl),rfl,fits⟩
  · rename_i l' wait started
    have leads := made (c := .waiting tx call wait) (by rw [started]; rfl)
    have waiting : (clients.set k (.waiting tx call wait))[k]? = some (.waiting tx call wait) :=
      getElem?_set_of_some here
    refine .onward leads rfl ?_
    cases wait with
    | row asked =>
      exact awaitAnswer_row (leads.sound sound) fits (Ledger.waits_of_start started) waiting ahead
    | «until» time =>
      exact awaitAnswer_until fits waiting (Ledger.le_of_start started) ahead

end Calls

-- The world shows a bank that a run has reached. Every transaction that is open under a name is a
-- client's, and no two of them are the same.
structure Shows (w : World) (clients : List Client) : Prop where
  leads : Leads {} (w.bank clients)
  idle : ∀ s ∈ w.sessions, .idle s.2 ∈ clients
  distinct : (w.sessions.map Prod.snd).Nodup
  fits : w.Fits

section Showing
variable {name : String} {tx : TxId}

theorem shows_start : Shows {} [] :=
  ⟨.refl {},by simp,List.nodup_nil,fun j member => by cases member⟩

theorem Shows.sound (shows : w.Shows clients) : (w.bank clients).Sound :=
  shows.leads.sound Bank.sound_empty

theorem Shows.goesOn (shows : w.Shows clients) (goes : w.GoesOn w') : w'.Shows clients :=
  ⟨shows.leads.trans (goes.leads clients),goes.sessions ▸ shows.idle,
    goes.sessions ▸ shows.distinct,goes.fits⟩

theorem Shows.settle (shows : w.Shows clients) : w.settle.Shows clients :=
  shows.goesOn (settle_goes shows.fits)

theorem Shows.moves (shows : w.Shows clients) (move : Move)
    (timely : (Turn.mk (w.bank clients) move (w'.bank clients)).Timely)
    (advanced : (w.bank clients).advance move = some (w'.bank clients))
    (sessions : w'.sessions = w.sessions) (fits : w'.Fits) : w'.Shows clients :=
  ⟨shows.leads.trans (.move move timely advanced),sessions ▸ shows.idle,sessions ▸ shows.distinct,fits⟩

theorem Shows.forget (shows : w.Shows clients) (name : String) : (w.forget name).Shows clients := by
  have kept : (w.forget name).sessions.Sublist w.sessions := List.filter_sublist
  exact ⟨shows.leads,fun s member => shows.idle s (kept.subset member),
    (kept.map Prod.snd).nodup shows.distinct,shows.fits⟩

theorem mem_of_session? (found : w.session? name = some tx) : (name,tx) ∈ w.sessions := by
  obtain ⟨earlier,later,same,_⟩ := List.lookup_eq_some_iff.mp found
  simp [same]

theorem Shows.client (shows : w.Shows clients) (found : w.session? name = some tx) :
    ∃ k : Nat, clients[k]? = some (.idle tx) :=
  List.mem_iff_getElem?.mp (shows.idle (name,tx) (mem_of_session? found))

-- Once a name is forgotten, nobody else has its transaction.
theorem Shows.ne_of_forget (shows : w.Shows clients) (found : w.session? name = some tx) :
    ∀ s ∈ (w.forget name).sessions, s.2 ≠ tx := by
  intro s member same
  obtain ⟨listed,other⟩ := List.mem_filter.mp member
  have one : s = (name,tx) :=
    List.inj_on_of_nodup_map shows.distinct listed (mem_of_session? found) same
  simp [one] at other

theorem mem_set_of_mem {k : Nat} {c : Client} {other : TxId} (here : clients[k]? = some (.idle tx))
    (kept : other = tx → c = .idle tx) (member : .idle other ∈ clients) :
    .idle other ∈ clients.set k c := by
  obtain ⟨m,there⟩ := List.mem_iff_getElem?.mp member
  by_cases same : k = m
  · subst same
    cases Option.some.inj (here.symm.trans there)
    exact kept rfl ▸ List.mem_set (List.getElem?_eq_some_iff.mp here).1 c
  · exact List.mem_of_getElem? ((List.getElem?_set_ne same).trans there)

theorem Shows.calls {k : Nat} {call : Call} (shows : w.Shows clients)
    (here : clients[k]? = some (.idle tx)) (calls : Calls k tx call clients w w')
    (kept : ∀ s ∈ w.sessions, s.2 = tx → Client.afterAnswer tx call = .idle tx) :
    w'.Shows (clients.set k (Client.afterAnswer tx call)) := by
  refine ⟨shows.leads.trans calls.leads,?_,calls.sessions ▸ shows.distinct,calls.fits⟩
  rw [calls.sessions]
  intro s member
  exact mem_set_of_mem here (kept s member) (shows.idle s member)

end Showing

section Commands
variable {name : String} {tx : TxId}

theorem Shows.called {call : Call} {deadline : Option Nat} (shows : w.Shows clients)
    (found : w.session? name = some tx) (inside : call ≠ .begin)
    (stays : Client.afterAnswer tx call = .idle tx)
    (ahead : ∀ u, deadline = some u → w.clock ≤ u) :
    ∃ clients', (w.call tx call deadline).1.Shows clients' := by
  obtain ⟨k,here⟩ := shows.client found
  exact ⟨_,shows.calls here (call_calls deadline shows.sound shows.fits here inside ahead)
    fun _ _ _ => stays⟩

theorem Shows.ended {call : Call} (shows : w.Shows clients) (found : w.session? name = some tx)
    (inside : call ≠ .begin) :
    ∃ clients', ((w.forget name).call tx call none).1.Shows clients' := by
  obtain ⟨k,here⟩ := shows.client found
  have forgotten := shows.forget name
  have calls := call_calls none forgotten.sound forgotten.fits here inside (by simp)
  exact ⟨_,forgotten.calls here calls fun s member same =>
    absurd same (shows.ne_of_forget found s member)⟩

theorem Shows.dropped {k : Nat} (shows : w.Shows clients) (found : w.session? name = some tx)
    (here : clients[k]? = some (.idle tx)) :
    ({ w.forget name with ledger := w.ledger.discard tx } : World).Shows (clients.set k .gone) := by
  have forgotten := shows.forget name
  refine ⟨forgotten.leads.trans (.move (.drop k) trivial ?_),?_,forgotten.distinct,forgotten.fits⟩
  · simp only [Bank.advance,Bank.updateClient,bank,here,Client.drop,Option.map_some]
    rfl
  · intro s member
    exact mem_set_of_mem here (fun same => absurd same (shows.ne_of_forget found s member))
      (forgotten.idle s member)

theorem Shows.launched (shows : w.Shows clients) (plan : JobPlan) :
    (w.launch plan).1.Shows clients := by
  refine Shows.settle (shows.moves (.launch plan) trivial rfl rfl ?_)
  intro j member
  rcases List.mem_append.mp member with old | new
  · exact shows.fits j old
  · cases List.mem_singleton.mp new
    exact Job.start_fits _ _ _

theorem Shows.awaited (shows : w.Shows clients) (i : Nat) : (w.await i).Shows clients :=
  shows.goesOn (runUntil_goes none _ shows.fits (by simp)).1

theorem Shows.renamed (shows : w.Shows clients) (tasks : List (String × Nat)) :
    ({ w with tasks := tasks } : World).Shows clients :=
  ⟨shows.leads,shows.idle,shows.distinct,shows.fits⟩

theorem interruptible_of_still {j : Job} (still : j.step now l = none)
    (unsettled : j.stage.settled = false) : j.stage.interruptible = true := by
  cases stage : j.stage with
  | finished | cancelled =>
    rw [stage] at unsettled
    cases unsettled
  | resting => rfl
  | running n tx d p wait =>
    cases p with
    | ended outcome =>
      simp only [Job.step,stage,Phase.next] at still
      split at still <;> cases still
    | _ => rfl

theorem abort_of_settled {j : Job} (settled : j.stage.settled = true) (l : Ledger) :
    j.abort l = (l,j) := by
  obtain ⟨plan,started,calls,stage⟩ := j
  cases stage <;> first | rfl | cases settled

theorem Shows.aborted (shows : w.Shows clients) (still : w.Still) (i : Nat) :
    (w.abortJob i).Shows clients := by
  unfold abortJob
  split
  · exact shows
  · rename_i j found
    cases settled : j.stage.settled with
    | true =>
      have same : w.jobs.set i j = w.jobs := by
        obtain ⟨bound,rfl⟩ := List.getElem?_eq_some_iff.mp found
        exact List.set_getElem_self bound
      rw [abort_of_settled settled]
      simp only [same]
      exact shows
    | false =>
      have member : j ∈ w.jobs := List.mem_of_getElem? found
      have free := interruptible_of_still (still.job j member) settled
      refine shows.moves (.abort i) trivial ?_ rfl ?_
      · simp only [Bank.advance,Bank.updateJob,bank,found,free,if_true,Option.map_some]
      · intro k listed
        rcases List.mem_or_eq_of_mem_set listed with old | rfl
        · exact shows.fits k old
        · exact Job.abort_fits (shows.fits j member) w.ledger

theorem Shows.ne_nextTx (shows : w.Shows clients) : ∀ s ∈ w.sessions, s.2 ≠ w.ledger.nextTx := by
  intro s member same
  obtain ⟨k,here⟩ := List.mem_iff_getElem?.mp (shows.idle s member)
  have consistent : (Client.idle s.2).Consistent w.ledger := shows.sound.client here
  cases consistent with
  | idle view => exact Ledger.not_live_nextTx shows.sound.ledger (same ▸ view.live)

theorem Shows.began {l' : Ledger} (shows : w.Shows clients)
    (began : w.ledger.begin = (l',.ok ())) :
    ({ w with ledger := l' } : World).Shows (clients ++ [.idle w.ledger.nextTx]) := by
  refine ⟨shows.leads.trans (.move .begin trivial ?_),?_,shows.distinct,shows.fits⟩
  · simp only [Bank.advance,bank,began]
  · intro s member
    exact List.mem_append_left _ (shows.idle s member)

theorem Shows.named (shows : w.Shows clients) (name : String) (member : .idle tx ∈ clients)
    (fresh : ∀ s ∈ w.sessions, s.2 ≠ tx) :
    ({ w with sessions := (name,tx) :: w.sessions } : World).Shows clients := by
  refine ⟨shows.leads,?_,?_,shows.fits⟩
  · intro s listed
    rcases List.mem_cons.mp listed with rfl | old
    · exact member
    · exact shows.idle s old
  · refine List.nodup_cons.mpr ⟨?_,shows.distinct⟩
    intro taken
    obtain ⟨s,listed,same⟩ := List.mem_map.mp taken
    exact fresh s listed same

theorem Shows.opened (shows : w.Shows clients) (name : String) :
    ∃ clients', (w.openSession name).1.Shows clients' := by
  simp only [openSession]
  split
  · rename_i l' e began
    refine ⟨clients,shows.moves .begin trivial ?_ rfl shows.fits⟩
    simp only [Bank.advance,bank,began]
  · rename_i l' began
    have opened := shows.began began
    have last : .idle w.ledger.nextTx ∈ clients ++ [.idle w.ledger.nextTx] :=
      List.mem_append_right _ (List.mem_singleton_self _)
    have fresh : ∀ s ∈ (w.forget name).sessions, s.2 ≠ w.ledger.nextTx := fun s member =>
      shows.ne_nextTx s (List.mem_filter.mp member).1
    cases found : w.session? name with
    | none => exact ⟨_,(opened.forget name).named name last fresh⟩
    | some old =>
      obtain ⟨k,here⟩ := opened.client found
      have kept := shows.ne_nextTx (name,old) (mem_of_session? found)
      exact ⟨_,(opened.dropped found here).named name
        (mem_set_of_mem here (fun same => absurd same.symm kept) last) fresh⟩

theorem Shows.performed (shows : w.Shows clients) (still : w.Still) (c : Command) :
    ∃ clients', (w.perform c).1.Shows clients' := by
  have within {name : String} {work : TxId → World × Answer}
      (worked : ∀ tx, w.session? name = some tx → ∃ clients', (work tx).1.Shows clients') :
      ∃ clients', (w.within name work).1.Shows clients' := by
    unfold World.within
    split
    · rename_i tx found
      exact worked tx found
    · exact ⟨clients,shows⟩
  have withTask {name : String} {work : Nat → World × Answer}
      (worked : ∀ i, (work i).1.Shows clients) :
      ∃ clients', (w.withTask name work).1.Shows clients' := by
    unfold World.withTask
    split
    · exact ⟨clients,worked _⟩
    · exact ⟨clients,shows⟩
  cases c with
  | createAccount owner currency balance =>
    simp only [perform]
    split
    · exact ⟨clients,shows⟩
    · rename_i currency _
      exact ⟨clients,shows.moves (.createAccount owner currency balance) trivial rfl rfl shows.fits⟩
  | account | totalBalance | storeName | getTransfer | getEntry | listEntries | listTransfers
  | validate => exact ⟨clients,shows⟩
  | injectFault point error =>
    exact ⟨clients,shows.moves (.arm point error) trivial rfl rfl shows.fits⟩
  | setLockHold delay => exact ⟨clients,shows.moves (.setLockHold delay) trivial rfl rfl shows.fits⟩
  | setCommitDelay delay =>
    exact ⟨clients,shows.moves (.setCommitDelay delay) trivial rfl rfl shows.fits⟩
  | begin name => exact shows.opened name
  | insertTransfer => exact within fun tx found => shows.called found (by simp) rfl (by simp)
  | insertEntry => exact within fun tx found => shows.called found (by simp) rfl (by simp)
  | getAccount | locked => exact within fun tx found => ⟨clients,shows⟩
  | addToBalance name id delta wait =>
    exact within fun tx found => shows.called found (by simp) rfl
      fun u same => Option.some.inj same ▸ Nat.le_add_right w.clock wait
  | commit | rollback => exact within fun tx found => shows.ended found (by simp)
  | drop =>
    refine within fun tx found => ?_
    obtain ⟨k,here⟩ := shows.client found
    exact ⟨_,shows.dropped found here⟩
  | run plan => exact ⟨clients,(shows.launched plan).awaited _⟩
  | spawn name plan => exact ⟨clients,(shows.launched plan).renamed _⟩
  | sleep ms =>
    have ahead : ∀ u, some (restUntil w.clock ms) = some u → w.clock ≤ u := by
      intro u same
      exact Option.some.inj same ▸ le_restUntil w.clock ms
    exact ⟨clients,shows.goesOn (runUntil_goes _ (fun _ => false) shows.fits ahead).1⟩
  | poll => exact withTask fun i => shows
  | abort => exact withTask fun i => shows.aborted still i
  | join => exact withTask fun i => (shows.awaited i).renamed _

end Commands

theorem play_cons (w : World) (c : Command) (rest : List Command) :
    w.play (c :: rest) = ((w.obey c).2,(w.obey c).1) ::
      if (w.obey c).2.panics then [] else (w.obey c).1.play rest := rfl

theorem play_shows {commands : List Command} (shows : w.Shows clients) (still : w.Still) :
    ∀ entry ∈ w.play commands, ∃ clients', entry.2.Shows clients' := by
  induction commands generalizing w clients with
  | nil => simp [play]
  | cons c rest ih =>
    obtain ⟨clients',performed⟩ := shows.performed still c
    have obeyed : (w.obey c).1.Shows clients' := performed.settle
    intro entry member
    rw [play_cons] at member
    rcases List.mem_cons.mp member with rfl | later
    · exact ⟨clients',obeyed⟩
    · split at later
      · cases later
      · exact ih obeyed (settle_still (w.perform c).1) entry later

end World

-- Every world that a scenario leaves behind is a bank that a run in virtual time reaches.
theorem runs_of_scenario (commands : List Command) :
    ∀ entry ∈ World.play {} commands,
      ∃ history clients, Runs {} history (entry.2.bank clients) ∧ Timely history := by
  intro entry member
  obtain ⟨clients,shows⟩ := World.play_shows World.shows_start rfl entry member
  obtain ⟨history,runs,timely⟩ := shows.leads
  exact ⟨history,clients,runs,timely⟩

end DoubleEntry
