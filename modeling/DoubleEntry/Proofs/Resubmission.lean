import DoubleEntry.Proofs.CallHistories

namespace DoubleEntry
variable {history : List Turn} {b : Bank} {i a : Nat}

namespace Turn

def lapse? (t : Turn) (i : Nat) : Option Nat :=
  match t.lost? with
  | some (.transient _) => t.call? i
  | _ => none

def entered (t : Turn) (i : Nat) : List (Nat × Transfer) :=
  match t.call? i with
  | some a => t.booked.map fun transfer => (a,transfer)
  | none => []

end Turn

def booked (history : List Turn) (i : Nat) : List Transfer :=
  (history.filter fun t => t.move.job? = some i).flatMap Turn.booked

def bookedIn (history : List Turn) (i a : Nat) : List Transfer :=
  (callTurns history i a).flatMap Turn.booked

def lapses (history : List Turn) (i : Nat) : List Nat := history.filterMap (·.lapse? i)

def Stage.number? : Stage → Option Nat
  | running n _ _ _ _ | resting n _ => some n
  | finished _ _ | cancelled => none

def Bank.number? (b : Bank) (i : Nat) : Option Nat := b.jobs[i]?.bind (·.stage.number?)

def Followed (history : List Turn) (i a : Nat) : Prop :=
  ∃ t ∈ history, ∃ n ∈ t.after.number? i, a < n

def entered (history : List Turn) (i : Nat) : List (Nat × Transfer) :=
  history.flatMap (·.entered i)

theorem bookedIn_eq (history : List Turn) (i a : Nat) :
    bookedIn history i a = ((entered history i).filter (·.1 = a)).map Prod.snd := by
  induction history with
  | nil => rfl
  | cons t rest ih =>
    have here : (if t.call? i = some a then t.booked else []) =
        ((t.entered i).filter (·.1 = a)).map Prod.snd := by
      unfold Turn.entered
      cases mine : t.call? i with
      | none => rfl
      | some a' =>
        by_cases same : a' = a
        · subst same
          have kept : (t.booked.map fun transfer => (a',transfer)).filter (·.1 = a') =
              t.booked.map fun transfer => (a',transfer) := by
            rw [List.filter_eq_self]
            intro pair member
            obtain ⟨_,_,rfl⟩ := List.mem_map.mp member
            simp
          rw [if_pos rfl,kept,List.map_map]
          exact (List.map_id _).symm
        · simp [same]
    unfold bookedIn callTurns at ih ⊢
    simp only [entered,List.flatMap_cons,List.filter_append,List.map_append,← here]
    rw [entered] at ih
    rw [← ih,List.filter_cons]
    by_cases mine : t.call? i = some a <;> simp [mine]

-- Every attempt that booked something is one of the lapses, and all are below the bound.
structure Accounted (done : List (Nat × Transfer)) (lapsed : List Nat) (bound : Nat) : Prop where
  attempts : done.map Prod.fst = lapsed
  ordered : lapsed.Pairwise (· < ·)
  below : ∀ a ∈ lapsed, a < bound

def OneMore (done : List (Nat × Transfer)) (lapsed : List Nat) (last : Nat) (t : Transfer) : Prop :=
  ∃ prior, done = prior ++ [(last,t)] ∧ Accounted prior lapsed last

namespace Accounted
variable {done : List (Nat × Transfer)} {lapsed : List Nat} {bound : Nat}

theorem nil (bound : Nat) : Accounted [] [] bound := ⟨rfl,.nil,by simp⟩

theorem wider (accounted : Accounted done lapsed bound) (more : bound ≤ bound') :
    Accounted done lapsed bound' :=
  ⟨accounted.attempts,accounted.ordered,
    fun a member => Nat.lt_of_lt_of_le (accounted.below a member) more⟩

theorem lapse (accounted : Accounted done lapsed n) (t : Transfer) :
    Accounted (done ++ [(n,t)]) (lapsed ++ [n]) (n + 1) := by
  refine ⟨by simp [accounted.attempts],?_,?_⟩
  · rw [List.pairwise_append]
    refine ⟨accounted.ordered,by simp,?_⟩
    intro a member a' last
    cases List.mem_singleton.mp last
    exact accounted.below a member
  · intro a member
    rcases List.mem_append.mp member with earlier | last
    · exact Nat.lt_succ_of_lt (accounted.below a earlier)
    · cases List.mem_singleton.mp last
      exact Nat.lt_succ_self n

theorem length (accounted : Accounted done lapsed bound) : done.length = lapsed.length := by
  rw [← accounted.attempts,List.length_map]

theorem untouched (accounted : Accounted done lapsed bound) (kept : a ∉ lapsed) :
    done.filter (·.1 = a) = [] := by
  rw [List.filter_eq_nil_iff]
  intro pair member
  have listed : pair.1 ∈ lapsed := accounted.attempts ▸ List.mem_map_of_mem member
  have different : pair.1 ≠ a := fun same => kept (same ▸ listed)
  simpa using different

end Accounted

-- The bookings of a job as far as it has come, `last` being its latest attempt.
def Stage.Tallies (done : List (Nat × Transfer)) (lapsed : List Nat) (last : Nat) : Stage → Prop
  | running n _ _ (.ended (.ok r)) _ => n = last ∧ OneMore done lapsed last r.transfer
  | running n _ _ (.ended (.error e)) _ =>
    n = last ∧ (Accounted done lapsed (last + 1) ∨
      e.retryable = false ∧ ∃ t, OneMore done lapsed last t)
  | running n _ _ _ _ | resting n _ => n = last ∧ Accounted done lapsed last
  | finished (.ok r) _ => OneMore done lapsed last r.transfer
  | finished (.error _) _ => Accounted done lapsed (last + 1) ∨ ∃ t, OneMore done lapsed last t
  | cancelled => Accounted done lapsed (last + 1)

section Tallying
variable {done : List (Nat × Transfer)} {lapsed : List Nat} {last : Nat} {stage stage' : Stage}

theorem tallies_running {p : Phase} (unended : ∀ outcome, p ≠ .ended outcome) (n d : Nat)
    (tx : Option TxId) (w : Option Wait) :
    (Stage.running n tx d p w).Tallies done lapsed last ↔ n = last ∧ Accounted done lapsed last := by
  cases p <;> first | exact Iff.rfl | exact absurd rfl (unended _)

theorem number_of_tallies (tallies : stage.Tallies done lapsed last)
    (number : stage.number? = some n) : n = last := by
  cases stage with
  | finished | cancelled => cases number
  | resting n time =>
    cases Option.some.inj number
    exact tallies.1
  | running n tx d p w =>
    cases Option.some.inj number
    cases p with
    | ended outcome => cases outcome <;> exact tallies.1
    | _ => exact tallies.1

theorem tallies_attempt (accounted : Accounted done lapsed n) (plan : JobPlan) :
    (Stage.attempt plan n).Tallies done lapsed n := by
  unfold Stage.attempt Phase.start
  split
  · exact ⟨rfl,accounted⟩
  · exact ⟨rfl,.inl (accounted.wider (Nat.le_succ n))⟩

-- Going on quietly, a job books nothing; it starts over only if its last attempt has booked nothing
-- or is one of the lapses.
theorem Stage.Follows.tallies (follows : Follows plan stage stage')
    (tallies : stage.Tallies done lapsed last) :
    ∃ last', last ≤ last' ∧ stage'.Tallies done lapsed last' := by
  cases follows with
  | @goesOn n d d' tx tx' p p' w w' unended unanswered =>
    obtain ⟨rfl,accounted⟩ := (tallies_running unended n d tx w).mp tallies
    refine ⟨n,Nat.le_refl n,?_⟩
    cases p' with
    | ended outcome =>
      cases outcome with
      | ok r => exact absurd rfl (unanswered r)
      | error e => exact ⟨rfl,.inl (accounted.wider (Nat.le_succ n))⟩
    | _ => exact ⟨rfl,accounted⟩
  | @rests n d time ticks tx outcome w again =>
    cases outcome with
    | ok r => cases again
    | error e =>
      obtain ⟨rfl,accounted | ⟨final,_⟩⟩ := tallies
      · exact ⟨n + 1,Nat.le_succ n,rfl,accounted⟩
      · rw [RetryPolicy.retryable_of_again? again] at final
        cases final
  | @finishes n d time tx outcome w enough =>
    refine ⟨last,Nat.le_refl last,?_⟩
    cases outcome with
    | ok r => exact tallies.2
    | error e =>
      rcases tallies.2 with accounted | ⟨_,one⟩
      · exact .inl accounted
      · exact .inr one
  | @wakes n time =>
    obtain ⟨rfl,accounted⟩ := tallies
    exact ⟨n,Nat.le_refl n,tallies_attempt accounted plan⟩

end Tallying

structure Tally (history : List Turn) (i : Nat) (b : Bank) (last : Nat) : Prop where
  booked : booked history i = (entered history i).map Prod.snd
  followed : ∀ a, Followed history i a → a < last
  absent : b.jobs[i]? = none → entered history i = [] ∧ lapses history i = [] ∧ last = 0
  stage : ∀ j, b.jobs[i]? = some j →
    j.stage.Tallies (entered history i) (lapses history i) last

namespace Turn
variable {t : Turn}

theorem entered_of_foreign (foreign : t.call? i = none) : t.entered i = [] := by
  unfold entered
  rw [foreign]

theorem lapse?_of_foreign (foreign : t.call? i = none) : t.lapse? i = none := by
  unfold lapse?
  split
  · exact foreign
  · rfl

theorem call?_of_foreign (foreign : t.move.job? ≠ some i) : t.call? i = none := if_neg foreign

theorem booked_of_same (same : t.after.ledger.transfers = t.before.ledger.transfers) :
    t.booked = [] := by
  rw [booked,same,List.drop_length]

theorem booked_of_quiet (quiet : t.before.ledger.Quiet t.after.ledger) : t.booked = [] :=
  booked_of_same (congrArg Books.transfers quiet.books)

theorem booked_of_writes (writes : Job.Writes m r t.before.ledger t.after.ledger) :
    t.booked = [r.transfer] := by
  rw [booked,writes.transfers,List.drop_left]

theorem entered_of_quiet (quiet : t.before.ledger.Quiet t.after.ledger) (i : Nat) :
    t.entered i = [] := by
  unfold entered
  rw [booked_of_quiet quiet]
  split <;> rfl

theorem lapse?_of_quiet (quiet : t.before.ledger.Quiet t.after.ledger) (i : Nat) :
    t.lapse? i = none := by
  unfold lapse?
  rw [lost?_of_quiet quiet]

end Turn

theorem Tally.snoc {t : Turn} {last last' : Nat} (tally : Tally history i t.before last)
    (grown : last ≤ last')
    (mine : t.move.job? = some i → t.booked = (t.entered i).map Prod.snd)
    (absent : t.after.jobs[i]? = none → t.before.jobs[i]? = none ∧ t.entered i = [] ∧
      t.lapse? i = none ∧ last' = last)
    (stage : ∀ j, t.after.jobs[i]? = some j → j.stage.Tallies (entered history i ++ t.entered i)
      (lapses history i ++ (t.lapse? i).toList) last') :
    Tally (history ++ [t]) i t.after last' := by
  have entries : entered (history ++ [t]) i = entered history i ++ t.entered i := by
    simp [entered]
  have lapsed : lapses (history ++ [t]) i = lapses history i ++ (t.lapse? i).toList := by
    unfold lapses
    rw [List.filterMap_append]
    cases lapse : t.lapse? i <;> simp [lapse]
  refine ⟨?_,?_,?_,?_⟩
  · rw [entries,List.map_append,← tally.booked]
    unfold DoubleEntry.booked
    rw [List.filter_append,List.flatMap_append]
    congr 1
    by_cases own : t.move.job? = some i
    · simp [own,mine own]
    · simp [own,Turn.entered_of_foreign (Turn.call?_of_foreign own)]
  · rintro a ⟨t',member,n,number,later⟩
    rcases List.mem_append.mp member with earlier | now
    · exact Nat.lt_of_lt_of_le (tally.followed a ⟨t',earlier,n,number,later⟩) grown
    · cases List.mem_singleton.mp now
      obtain ⟨j,found,here⟩ := Option.bind_eq_some_iff.mp number
      exact number_of_tallies (stage j found) here ▸ later
  · intro missing
    obtain ⟨before,nothing,kept,same⟩ := absent missing
    obtain ⟨nothing',kept',zero⟩ := tally.absent before
    rw [entries,lapsed,nothing,kept,nothing',kept',same,zero]
    exact ⟨rfl,rfl,rfl⟩
  · intro j found
    rw [entries,lapsed]
    exact stage j found

theorem tally_start (i : Nat) : Tally [] i {} 0 := by
  refine ⟨rfl,?_,fun _ => ⟨rfl,rfl,rfl⟩,?_⟩
  · rintro a ⟨t,member,_⟩
    cases member
  · intro j found
    cases found

section Keeping
variable {before after : Bank} {move : Move} {last : Nat} {j j' : Job}

theorem Tally.silent {last' : Nat} (tally : Tally history i before last) (grown : last ≤ last')
    (booked : move.job? = some i → (Turn.mk before move after).booked = [])
    (entered : (Turn.mk before move after).entered i = [])
    (kept : (Turn.mk before move after).lapse? i = none)
    (absent : after.jobs[i]? = none → before.jobs[i]? = none ∧ last' = last)
    (stage : ∀ j, after.jobs[i]? = some j →
      j.stage.Tallies (DoubleEntry.entered history i) (lapses history i) last') :
    Tally (history ++ [⟨before,move,after⟩]) i after last' := by
  refine tally.snoc (t := ⟨before,move,after⟩) grown ?_ ?_ ?_
  · intro mine
    rw [booked mine,entered]
    rfl
  · intro missing
    exact ⟨(absent missing).1,entered,kept,(absent missing).2⟩
  · intro j found
    rw [entered,kept,List.append_nil]
    simpa using stage j found

theorem accounted_of_interruptible {stage : Stage} (free : stage.interruptible = true)
    (tallies : stage.Tallies done lapsed last) : Accounted done lapsed last := by
  cases stage with
  | finished | cancelled => cases free
  | resting => exact tallies.2
  | running n tx d p w =>
    cases p with
    | ended => cases free
    | _ => exact tallies.2

theorem Tally.commits {r : Receipt} (tally : Tally history i before last)
    (found : before.jobs[i]? = some j) (found' : after.jobs[i]? = some j')
    (stage : j.stage = .running n tx d (.committing r) w)
    (writes : Job.Writes m r before.ledger after.ledger)
    (tallies : ∀ done lapsed, Accounted done lapsed n →
      j'.stage.Tallies (done ++ [(n,r.transfer)])
        (lapsed ++ ((Turn.mk before (.step i) after).lapse? i).toList) n) :
    Tally (history ++ [⟨before,.step i,after⟩]) i after last := by
  have call : (Turn.mk before (.step i) after).call? i = some n := by
    simp [Turn.call?,Move.job?,Bank.call?,found,stage,Stage.call?]
  have booked := Turn.booked_of_writes (t := ⟨before,.step i,after⟩) writes
  have entered : (Turn.mk before (.step i) after).entered i = [(n,r.transfer)] := by
    simp only [Turn.entered,call,booked,List.map_cons,List.map_nil]
  have now := tally.stage j found
  rw [stage] at now
  obtain ⟨rfl,accounted⟩ := now
  refine tally.snoc (t := ⟨before,.step i,after⟩) (Nat.le_refl n) ?_ ?_ ?_
  · intro _
    rw [booked,entered]
    rfl
  · intro missing
    rw [found'] at missing
    cases missing
  · intro j'' found''
    cases Option.some.inj (found'.symm.trans found'')
    rw [entered]
    exact tallies _ _ accounted

theorem Tally.step (tally : Tally history i before last) (found : before.jobs[i]? = some j)
    (found' : after.jobs[i]? = some j') (moves : j.Moves before.ledger after.ledger j') :
    ∃ last', Tally (history ++ [⟨before,.step i,after⟩]) i after last' := by
  cases moves.does with
  | quietly quiet follows =>
    obtain ⟨last',grown,tallies⟩ := follows.tallies (tally.stage j found)
    refine ⟨last',tally.silent grown (fun _ => Turn.booked_of_quiet quiet)
      (Turn.entered_of_quiet quiet i) (Turn.lapse?_of_quiet quiet i) ?_ ?_⟩
    · intro missing
      rw [found'] at missing
      cases missing
    · intro j'' found''
      cases Option.some.inj (found'.symm.trans found'')
      exact tallies
  | @writes n d tx tx' r w stage writes armed answered =>
    have lost := (Turn.lost?_of_writes (t := ⟨before,.step i,after⟩) writes).trans armed
    refine ⟨last,tally.commits found found' stage writes ?_⟩
    intro done lapsed accounted
    rw [answered,Turn.lapse?,lost]
    exact ⟨rfl,done,rfl,by simpa using accounted⟩
  | @unacknowledged n d tx tx' r w e stage writes armed answered =>
    have lost := (Turn.lost?_of_writes (t := ⟨before,.step i,after⟩) writes).trans armed
    have call : (Turn.mk before (.step i) after).call? i = some n := by
      simp [Turn.call?,Move.job?,Bank.call?,found,stage,Stage.call?]
    refine ⟨last,tally.commits found found' stage writes ?_⟩
    intro done lapsed accounted
    rw [answered,Turn.lapse?,lost]
    -- Only a transient failure lets the job try again, and that one is on record as a lapse.
    cases e with
    | transient reason =>
      refine ⟨rfl,.inl ?_⟩
      rw [call]
      exact accounted.lapse r.transfer
    | _ => exact ⟨rfl,.inr ⟨rfl,r.transfer,done,rfl,by simpa using accounted⟩⟩

end Keeping

theorem runs_tally (runs : Runs {} history b) (i : Nat) : ∃ last, Tally history i b last := by
  refine (runs.invariant (P := fun history b => ∃ last, Tally history i b last)
    ⟨0,tally_start i⟩ ?_).2
  rintro history before move after _ _ advances ⟨last,tally⟩
  cases advances.concerns i with
  | passes foreign same =>
    have call := Turn.call?_of_foreign (t := ⟨before,move,after⟩) foreign
    refine ⟨last,tally.silent (Nat.le_refl last) (fun mine => absurd mine foreign)
      (Turn.entered_of_foreign call) (Turn.lapse?_of_foreign call) ?_ ?_⟩
    · exact fun missing => ⟨same.symm.trans missing,rfl⟩
    · exact fun j found => tally.stage j (same.symm.trans found)
  | launches foreign absent found =>
    have call := Turn.call?_of_foreign (t := ⟨before,move,after⟩) foreign
    obtain ⟨nothing,kept,rfl⟩ := tally.absent absent
    refine ⟨0,tally.silent (Nat.le_refl 0) (fun mine => absurd mine foreign)
      (Turn.entered_of_foreign call) (Turn.lapse?_of_foreign call) ?_ ?_⟩
    · exact fun _ => ⟨absent,rfl⟩
    · intro j found'
      cases Option.some.inj (found.symm.trans found')
      rw [nothing,kept]
      rcases Job.start_stage before.clock before.ledger _ with stage | ⟨e,stage⟩
      · rw [stage]
        exact tallies_attempt (.nil 0) _
      · rw [stage]
        exact .inl (.nil 1)
  | steps here found found' moves =>
    subst here
    exact tally.step found found' moves
  | aborts _ found free found' _ quiet =>
    have accounted := accounted_of_interruptible free (tally.stage _ found)
    refine ⟨last,tally.silent (Nat.le_refl last) (fun _ => Turn.booked_of_quiet quiet)
      (Turn.entered_of_quiet quiet i) (Turn.lapse?_of_quiet quiet i) ?_ ?_⟩
    · intro missing
      rw [found'] at missing
      cases missing
    · intro j found''
      cases Option.some.inj (found'.symm.trans found'')
      exact accounted.wider (Nat.le_succ last)

-- What a job has booked stands in the ledger, row by row.
theorem runs_booked (runs : Runs {} history b) (i : Nat) :
    (booked history i).Sublist b.ledger.transfers := by
  refine (runs.invariant (P := fun history b => (booked history i).Sublist b.ledger.transfers)
    (List.nil_sublist _) ?_).2
  intro history before move after _ _ advances earlier
  have grown : before.ledger.transfers ++ (Turn.mk before move after).booked =
      after.ledger.transfers := List.prefix_iff_eq_append.mp advances.grows.2
  rw [← grown]
  unfold booked
  rw [List.filter_append,List.flatMap_append]
  refine List.Sublist.append earlier ?_
  by_cases mine : move.job? = some i
  · simp [mine]
  · simp [mine]

section Bookings
variable {last : Nat} {done : List (Nat × Transfer)} {lapsed : List Nat}

theorem Stage.Tallies.cases {stage : Stage} (tallies : stage.Tallies done lapsed last) :
    Accounted done lapsed (last + 1) ∨ ∃ t, OneMore done lapsed last t := by
  have wide (accounted : Accounted done lapsed last) : Accounted done lapsed (last + 1) :=
    accounted.wider (Nat.le_succ last)
  cases stage with
  | cancelled => exact .inl tallies
  | resting => exact .inl (wide tallies.2)
  | finished outcome time =>
    cases outcome with
    | ok r => exact .inr ⟨_,tallies⟩
    | error e => exact tallies
  | running n tx d p w =>
    cases p with
    | ended outcome =>
      cases outcome with
      | ok r => exact .inr ⟨_,tallies.2⟩
      | error e =>
        rcases tallies.2 with accounted | ⟨_,one⟩
        · exact .inl accounted
        · exact .inr one
    | _ => exact .inl (wide tallies.2)

theorem Tally.cases (tally : Tally history i b last) :
    Accounted (entered history i) (lapses history i) (last + 1) ∨
      ∃ t, OneMore (entered history i) (lapses history i) last t := by
  cases found : b.jobs[i]? with
  | none =>
    obtain ⟨nothing,kept,_⟩ := tally.absent found
    rw [nothing,kept]
    exact .inl (.nil _)
  | some j => exact (tally.stage j found).cases

end Bookings

theorem resubmission_books_once (runs : Runs {} history b) (i : Nat) :
    (booked history i).Sublist b.ledger.transfers ∧ (lapses history i).Nodup ∧
      (booked history i).length ≤ 1 + (lapses history i).length ∧
      -- A success without lapses has booked what it returned, and that alone.
      (∀ r, b.receipt? i = some r → lapses history i = [] → booked history i = [r.transfer]) ∧
      -- What was tried again had booked nothing.
      ∀ a, Followed history i a → a ∉ lapses history i → bookedIn history i a = [] := by
  obtain ⟨last,tally⟩ := runs_tally runs i
  have distinct {bound : Nat} {done : List (Nat × Transfer)}
      (accounted : Accounted done (lapses history i) bound) : (lapses history i).Nodup :=
    accounted.ordered.imp Nat.ne_of_lt
  refine ⟨runs_booked runs i,?_,?_,?_,?_⟩
  · rcases tally.cases with accounted | ⟨t,prior,_,accounted⟩
    · exact distinct accounted
    · exact distinct accounted
  · rw [tally.booked,List.length_map]
    rcases tally.cases with accounted | ⟨t,prior,split,accounted⟩
    · have same := accounted.length
      omega
    · have same := accounted.length
      rw [split,List.length_append,List.length_singleton]
      omega
  · intro r returned none
    obtain ⟨j,found,succeeded⟩ := Option.bind_eq_some_iff.mp returned
    obtain ⟨time,stage⟩ := Stage.of_receipt? succeeded
    have tallies := tally.stage j found
    rw [stage] at tallies
    obtain ⟨prior,split,accounted⟩ := tallies
    have empty : prior = [] := by
      rw [← List.length_eq_zero_iff,accounted.length,none]
      rfl
    rw [tally.booked,split,empty]
    rfl
  · intro a followed kept
    have earlier := tally.followed a followed
    rw [bookedIn_eq]
    rcases tally.cases with accounted | ⟨t,prior,split,accounted⟩
    · rw [accounted.untouched kept]
      rfl
    · have other : last ≠ a := Nat.ne_of_gt earlier
      rw [split,List.filter_append,accounted.untouched kept]
      simp [other]

-- The first transfer was booked twice, once for the acknowledgement it lost; the fourth once,
-- although its first attempt had failed.
theorem resubmission_books_once_contended :
    Runs {} contendedRun.1 contendedRun.2 ∧ lapses contendedRun.1 0 = [0] ∧
      (booked contendedRun.1 0).length = 2 ∧ Followed contendedRun.1 3 0 ∧
      bookedIn contendedRun.1 3 0 = [] ∧
      ∃ r : Receipt, booked contendedRun.1 3 = [r.transfer] := by
  have runs := runs_contended
  obtain ⟨_,_,_,once,idle⟩ := resubmission_books_once runs 3
  have followed : Followed contendedRun.1 3 0 := by
    unfold Followed
    decide +kernel
  have kept : lapses contendedRun.1 3 = [] := by decide +kernel
  have succeeded : (contendedRun.2.receipt? 3).isSome = true := by decide +kernel
  obtain ⟨r,returned⟩ := Option.isSome_iff_exists.mp succeeded
  exact ⟨runs,by decide +kernel,by decide +kernel,followed,idle 0 followed (by simp [kept]),
    r,once r returned kept⟩

end DoubleEntry
