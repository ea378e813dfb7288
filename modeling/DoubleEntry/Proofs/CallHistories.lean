import DoubleEntry.Proofs.Histories

namespace DoubleEntry

namespace Stage
variable {a : Nat} {stage stage' : Stage}

def Past (a : Nat) : Stage → Prop
  | running n _ _ (.ended _) _ => a ≤ n
  | running n _ _ _ _ => a < n
  | resting n _ => a < n
  | finished _ _ | cancelled => True

def Ahead (a : Nat) : Stage → Prop
  | running n _ _ _ _ => n < a
  | resting n _ => n ≤ a
  | finished _ _ | cancelled => False

theorem call?_running {p : Phase} (unended : ∀ outcome, p ≠ .ended outcome) (n d : Nat)
    (tx : Option TxId) (w : Option Wait) : (running n tx d p w).call? = some n := by
  cases p <;> first | rfl | exact absurd rfl (unended _)

theorem past_running {p : Phase} {n d : Nat} {tx : Option TxId} {w : Option Wait} (later : a < n) :
    (running n tx d p w).Past a := by
  cases p <;> first | exact later | exact Nat.le_of_lt later

theorem cases_of_attempt (stage : Stage) (a : Nat) :
    stage.Ahead a ∨ stage.call? = some a ∨ stage.Past a := by
  cases stage with
  | finished | cancelled => exact .inr (.inr trivial)
  | resting n time =>
    by_cases reached : n ≤ a
    · exact .inl reached
    · exact .inr (.inr (Nat.lt_of_not_le reached))
  | running n tx d p w =>
    rcases Nat.lt_trichotomy n a with before | here | behind
    · exact .inl before
    · subst here
      cases p <;> first | exact .inr (.inl rfl) | exact .inr (.inr (Nat.le_refl n))
    · exact .inr (.inr (past_running behind))

theorem not_past_of_call? (here : stage.call? = some a) : ¬stage.Past a := by
  intro past
  cases stage with
  | finished | cancelled | resting => cases here
  | running n tx d p w =>
    cases p with
    | ended => cases here
    | _ =>
      cases Option.some.inj here
      exact Nat.lt_irrefl _ past

theorem Follows.past (follows : Follows plan stage stage') (past : stage.Past a) :
    stage'.Past a := by
  cases follows with
  | @goesOn n d d' tx tx' p p' w w' unended _ =>
    have later : a < n := by
      cases p <;> first | exact past | exact absurd rfl (unended _)
    exact past_running later
  | rests => exact Nat.lt_succ_of_le past
  | finishes => trivial
  | wakes => exact past_running past

theorem Follows.here (follows : Follows plan stage stage') (here : stage.call? = some a) :
    stage'.call? = some a ∨
      ∃ tx d e w, stage' = running a tx d (.ended (.error e)) w := by
  cases follows with
  | rests | finishes | wakes => cases here
  | @goesOn n d d' tx tx' p p' w w' unended unanswered =>
    rw [call?_running unended] at here
    cases Option.some.inj here
    cases p' with
    | ended outcome =>
      cases outcome with
      | error e => exact .inr ⟨tx',d',e,w',rfl⟩
      | ok r => exact absurd rfl (unanswered r)
    | _ => exact .inl rfl

end Stage

theorem Job.Moves.past {j j' : Job} (moves : j.Moves l l' j') (past : j.stage.Past a) :
    j'.stage.Past a := by
  cases moves.does with
  | quietly _ follows => exact follows.past past
  | writes stage _ _ answered | unacknowledged stage _ _ answered =>
    rw [stage] at past
    rw [answered]
    exact Nat.le_of_lt past

theorem Job.Moves.onward {j j' : Job} (moves : j.Moves l l' j') (here : j.stage.call? = some a) :
    j'.stage.call? = some a ∨ j'.stage.Past a := by
  cases moves.does with
  | quietly _ follows =>
    rcases follows.here here with goes | ⟨tx,d,e,w,stage⟩
    · exact .inl goes
    · exact .inr (by rw [stage]; exact Nat.le_refl a)
  | writes stage _ _ answered | unacknowledged stage _ _ answered =>
    rw [stage] at here
    cases Option.some.inj here
    exact .inr (by rw [answered]; exact Nat.le_refl _)

namespace Bank
variable {b : Bank} {i a : Nat}

def Past (b : Bank) (i a : Nat) : Prop := ∃ j, b.jobs[i]? = some j ∧ j.stage.Past a

def Ahead (b : Bank) (i a : Nat) : Prop := ∀ j, b.jobs[i]? = some j → j.stage.Ahead a

theorem call?_eq_some : b.call? i = some a ↔ ∃ j, b.jobs[i]? = some j ∧ j.stage.call? = some a :=
  Option.bind_eq_some_iff

theorem past_of_answers (answers : b.Answers i a outcome) : b.Past i a := by
  obtain ⟨j,tx,d,w,found,stage⟩ := answers
  exact ⟨j,found,by rw [stage]; exact Nat.le_refl a⟩

theorem not_answers_of_call? (here : b.call? i = some a) : ¬b.Answers i a outcome := by
  rintro ⟨j,tx,d,w,found,stage⟩
  obtain ⟨j',found',inside⟩ := call?_eq_some.mp here
  cases Option.some.inj (found.symm.trans found')
  rw [stage] at inside
  cases inside

theorem answers_unique (one : b.Answers i a outcome) (two : b.Answers i a outcome') :
    outcome = outcome' := by
  obtain ⟨j,tx,d,w,found,stage⟩ := one
  obtain ⟨j',tx',d',w',found',stage'⟩ := two
  cases Option.some.inj (found.symm.trans found')
  rw [stage] at stage'
  cases stage'
  rfl

end Bank

namespace Turn
variable {t : Turn} {i a : Nat}

structure Goes (i a : Nat) (t : Turn) : Prop where
  quiet : t.before.ledger.Quiet t.after.ledger
  stays : t.move = .step i
  here : t.after.call? i = some a

inductive Ends (i a : Nat) (t : Turn) : Prop where
  | aborted (dropped : t.move = .abort i) (quiet : t.before.ledger.Quiet t.after.ledger)
      (unanswered : ∀ outcome, ¬t.after.Answers i a outcome)
  | failed {e : TransferError} (stays : t.move = .step i)
      (quiet : t.before.ledger.Quiet t.after.ledger) (answers : t.after.Answers i a (.error e))
  | written {j : Job} {r : Receipt} (stays : t.move = .step i)
      (found : t.before.jobs[i]? = some j)
      (writes : Job.Writes j.plan.movement r t.before.ledger t.after.ledger)
      (kept : t.lost? = none) (answers : t.after.Answers i a (.ok r))
  | unacknowledged {j : Job} {r : Receipt} {e : StoreError} (stays : t.move = .step i)
      (found : t.before.jobs[i]? = some j)
      (writes : Job.Writes j.plan.movement r t.before.ledger t.after.ledger)
      (lost : t.lost? = some e) (answers : t.after.Answers i a (.error (.store .commit e)))

theorem lost?_of_quiet (quiet : t.before.ledger.Quiet t.after.ledger) : t.lost? = none := by
  unfold lost?
  rw [quiet.acknowledgement]
  split
  · assumption
  · rfl

theorem lost?_of_writes (writes : Job.Writes m r t.before.ledger t.after.ledger) :
    t.lost? = t.before.ledger.fault? .commitAcknowledgement := by
  unfold lost?
  rw [writes.acknowledgement]

theorem not_changes_of_quiet (quiet : t.before.ledger.Quiet t.after.ledger) : ¬t.Changes :=
  fun changes => changes quiet.books

theorem changes_of_writes (writes : Job.Writes m r t.before.ledger t.after.ledger) : t.Changes := by
  intro same
  have lengths := congrArg (fun k : Books => k.transfers.length) (writes.books.symm.trans same)
  simp [Books.enter] at lengths

theorem goes_or_ends {before after : Bank} {move : Move} (here : before.call? i = some a)
    (concerns : before.Concerns i move after) (mine : move.job? = some i) :
    Goes i a ⟨before,move,after⟩ ∨ after.Past i a ∧ Ends i a ⟨before,move,after⟩ := by
  obtain ⟨j,found,inside⟩ := Bank.call?_eq_some.mp here
  cases concerns with
  | passes foreign => exact absurd mine foreign
  | launches foreign => exact absurd mine foreign
  | aborts dropped _ _ found' _ quiet =>
    refine .inr ⟨⟨_,found',trivial⟩,.aborted dropped quiet ?_⟩
    rintro outcome ⟨j',tx,d,w,there,stage⟩
    cases Option.some.inj (found'.symm.trans there)
    cases stage
  | steps stays found' found'' moves =>
    rename_i j₁ j'
    cases Option.some.inj (found.symm.trans found')
    cases moves.does with
    | quietly quiet follows =>
      rcases follows.here inside with goes | ⟨tx,d,e,w,stage⟩
      · exact .inl ⟨quiet,stays,Bank.call?_eq_some.mpr ⟨j',found'',goes⟩⟩
      · have answers : after.Answers i a (.error e) := ⟨j',tx,d,w,found'',stage⟩
        exact .inr ⟨Bank.past_of_answers answers,.failed stays quiet answers⟩
    | writes stage writes armed answered =>
      rw [stage] at inside
      cases Option.some.inj inside
      have answers : after.Answers i _ (.ok _) := ⟨j',_,_,_,found'',answered⟩
      exact .inr ⟨Bank.past_of_answers answers,
        .written stays found writes ((lost?_of_writes writes).trans armed) answers⟩
    | unacknowledged stage writes armed answered =>
      rw [stage] at inside
      cases Option.some.inj inside
      have answers : after.Answers i _ (.error (.store .commit _)) := ⟨j',_,_,_,found'',answered⟩
      exact .inr ⟨Bank.past_of_answers answers,
        .unacknowledged stays found writes ((lost?_of_writes writes).trans armed) answers⟩

end Turn

-- The turns that a call has taken so far, and whether there can be more.
inductive CallHistory (i a : Nat) (b : Bank) : List Turn → Prop where
  | ahead (ahead : b.Ahead i a) : CallHistory i a b []
  | underway {turns : List Turn} (here : b.call? i = some a) (goes : ∀ t ∈ turns, t.Goes i a) :
      CallHistory i a b turns
  | never (past : b.Past i a) : CallHistory i a b []
  | ended {earlier : List Turn} {t : Turn} (past : b.Past i a) (goes : ∀ t ∈ earlier, t.Goes i a)
      (ends : t.Ends i a) : CallHistory i a b (earlier ++ [t])

section Advancing
variable {before after : Bank} {move : Move} {i a : Nat} {turns : List Turn}

theorem Bank.Concerns.past (concerns : before.Concerns i move after) (past : before.Past i a) :
    after.Past i a := by
  obtain ⟨j,found,behind⟩ := past
  cases concerns with
  | passes _ same => exact ⟨j,same.trans found,behind⟩
  | launches _ absent =>
    rw [absent] at found
    cases found
  | aborts _ _ _ found' => exact ⟨_,found',trivial⟩
  | steps _ found' found'' moves =>
    cases Option.some.inj (found.symm.trans found')
    exact ⟨_,found'',moves.past behind⟩

theorem CallHistory.of_bank (b : Bank) (i a : Nat) : CallHistory i a b [] := by
  cases found : b.jobs[i]? with
  | none =>
    refine .ahead ?_
    intro j here
    rw [found] at here
    cases here
  | some j =>
    rcases j.stage.cases_of_attempt a with before | here | behind
    · refine .ahead ?_
      intro j' found'
      cases Option.some.inj (found.symm.trans found')
      exact before
    · exact .underway (Bank.call?_eq_some.mpr ⟨j,found,here⟩) (by simp)
    · exact .never ⟨j,found,behind⟩

theorem CallHistory.goes (calls : CallHistory i a before turns) (here : before.call? i = some a) :
    ∀ t ∈ turns, t.Goes i a := by
  cases calls with
  | ahead | never => simp
  | underway _ goes => exact goes
  | ended past =>
    obtain ⟨j,found,inside⟩ := Bank.call?_eq_some.mp here
    obtain ⟨j',found',behind⟩ := past
    cases Option.some.inj (found.symm.trans found')
    exact absurd behind (Stage.not_past_of_call? inside)

theorem CallHistory.extends (calls : CallHistory i a before turns)
    (concerns : before.Concerns i move after)
    (mine : move.job? = some i) (here : before.call? i = some a) :
    CallHistory i a after (turns ++ [⟨before,move,after⟩]) := by
  have goes := calls.goes here
  rcases Turn.goes_or_ends here concerns mine with onward | ⟨past,ends⟩
  · refine .underway onward.here ?_
    intro t member
    rcases List.mem_append.mp member with earlier | last
    · exact goes t earlier
    · cases List.mem_singleton.mp last
      exact onward
  · exact .ended past goes ends

theorem CallHistory.idles (calls : CallHistory i a before turns)
    (concerns : before.Concerns i move after)
    (other : ¬(move.job? = some i ∧ before.call? i = some a)) : CallHistory i a after turns := by
  cases calls with
  | ahead | never => exact .of_bank after i a
  | ended past goes ends => exact .ended (concerns.past past) goes ends
  | underway here goes =>
    refine .underway ?_ goes
    cases concerns with
    | passes _ same => simpa only [Bank.call?,same] using here
    | launches _ absent => simp [Bank.call?,absent] at here
    | steps mine | aborts mine => exact absurd ⟨congrArg Move.job? mine,here⟩ other

end Advancing

theorem callTurns_append (earlier later : List Turn) (i a : Nat) :
    callTurns (earlier ++ later) i a = callTurns earlier i a ++ callTurns later i a :=
  List.filter_append earlier later

theorem callTurns_snoc (history : List Turn) (t : Turn) (i a : Nat) :
    callTurns (history ++ [t]) i a =
      callTurns history i a ++ if t.call? i = some a then [t] else [] := by
  rw [callTurns_append]
  by_cases mine : t.call? i = some a <;> simp [callTurns,mine]

theorem mem_callTurns {t : Turn} {i a : Nat} (member : t ∈ history) (call : t.call? i = some a) :
    t ∈ callTurns history i a :=
  List.mem_filter.mpr ⟨member,decide_eq_true call⟩

theorem mem_effects {t : Turn} {i a : Nat} (member : t ∈ history) (call : t.call? i = some a)
    (changes : t.Changes) : t ∈ effects history i a :=
  List.mem_filter.mpr ⟨mem_callTurns member call,decide_eq_true changes⟩

theorem mem_callTurns_append {earlier : List Turn} {t : Turn} {i a : Nat}
    (member : t ∈ callTurns earlier i a) (later : List Turn) :
    t ∈ callTurns (earlier ++ later) i a := by
  rw [callTurns_append]
  exact List.mem_append_left _ member

theorem Turn.call?_eq_some {t : Turn} {i a : Nat} :
    t.call? i = some a ↔ t.move.job? = some i ∧ t.before.call? i = some a := by
  unfold Turn.call?
  split
  · rename_i mine
    simp [mine]
  · rename_i foreign
    simp [foreign]

theorem runs_callHistory (runs : Runs {} history b) (i a : Nat) :
    CallHistory i a b (callTurns history i a) := by
  refine (runs.invariant (P := fun history b => CallHistory i a b (callTurns history i a))
    (.of_bank {} i a) ?_).2
  intro history before move after _ _ advances calls
  have concerns := advances.concerns i
  rw [callTurns_snoc]
  by_cases mine : (Turn.mk before move after).call? i = some a
  · rw [if_pos mine]
    have ⟨own,here⟩ := Turn.call?_eq_some.mp mine
    exact calls.extends concerns own here
  · rw [if_neg mine,List.append_nil]
    exact calls.idles concerns fun both => mine (Turn.call?_eq_some.mpr both)

-- What has become of a call, whether or not it is over.
inductive WriteOutcome (i a : Nat) (turns : List Turn) : Prop where
  | unwritten (effects : turns.filter (fun t => t.Changes) = [])
      (kept : ∀ t ∈ turns, t.lost? = none)
      (unanswered : ∀ t ∈ turns, ∀ r, ¬t.after.Answers i a (.ok r))
  | written {t : Turn} {j : Job} {r : Receipt} (effects : turns.filter (fun t => t.Changes) = [t])
      (found : t.before.jobs[i]? = some j)
      (writes : Job.Writes j.plan.movement r t.before.ledger t.after.ledger)
      (kept : ∀ t ∈ turns, t.lost? = none) (answers : t.after.Answers i a (.ok r))
      (only : ∀ t ∈ turns, ∀ outcome, t.after.Answers i a outcome → outcome = .ok r)
      (stays : ∀ t ∈ turns, t.move = .step i)
  | unacknowledged {t : Turn} {j : Job} {r : Receipt} {e : StoreError}
      (effects : turns.filter (fun t => t.Changes) = [t]) (found : t.before.jobs[i]? = some j)
      (writes : Job.Writes j.plan.movement r t.before.ledger t.after.ledger)
      (lost : t.lost? = some e)
      (only : ∀ t ∈ turns, ∀ outcome, t.after.Answers i a outcome →
        outcome = .error (.store .commit e))
      (stays : ∀ t ∈ turns, t.move = .step i)

section WriteOutcomes
variable {i a : Nat} {earlier turns : List Turn} {t : Turn}

theorem effects_of_goes (goes : ∀ t ∈ turns, t.Goes i a) :
    turns.filter (fun t => t.Changes) = [] := by
  rw [List.filter_eq_nil_iff]
  intro t member
  simpa using Turn.not_changes_of_quiet (goes t member).quiet

theorem forall_concat {p : Turn → Prop} (before : ∀ t ∈ earlier, p t) (last : p t) :
    ∀ t' ∈ earlier ++ [t], p t' := by
  intro t' member
  rcases List.mem_append.mp member with early | late
  · exact before t' early
  · exact List.mem_singleton.mp late ▸ last

theorem CallHistory.writeOutcome (calls : CallHistory i a b turns) : WriteOutcome i a turns := by
  cases calls with
  | ahead | never => exact .unwritten rfl (by simp) (by simp)
  | underway _ goes =>
    refine .unwritten (effects_of_goes goes) ?_ ?_
    · intro t member
      exact Turn.lost?_of_quiet (goes t member).quiet
    · intro t member r
      exact Bank.not_answers_of_call? (goes t member).here
  | @ended earlier t _ goes ends =>
    have effects := effects_of_goes goes
    have kept : ∀ t ∈ earlier, t.lost? = none := fun t member =>
      Turn.lost?_of_quiet (goes t member).quiet
    have stayed : ∀ t ∈ earlier, t.move = .step i := fun t member => (goes t member).stays
    have silent {outcome : Outcome} : ∀ t ∈ earlier, ¬t.after.Answers i a outcome :=
      fun t member => Bank.not_answers_of_call? (goes t member).here
    have answered {outcome : Outcome} (last : t.after.Answers i a outcome) :
        ∀ t' ∈ earlier ++ [t], ∀ given, t'.after.Answers i a given → given = outcome :=
      forall_concat (p := fun t => ∀ given, t.after.Answers i a given → given = outcome)
        (fun t member given answers => absurd answers (silent t member))
        fun given answers => Bank.answers_unique answers last
    cases ends with
    | aborted _ quiet unanswered =>
      refine .unwritten ?_ (forall_concat kept (Turn.lost?_of_quiet quiet))
        (forall_concat (fun t member r => silent t member) fun r => unanswered (.ok r))
      simp [effects,Turn.not_changes_of_quiet quiet]
    | failed _ quiet answers =>
      refine .unwritten ?_ (forall_concat kept (Turn.lost?_of_quiet quiet)) ?_
      · simp [effects,Turn.not_changes_of_quiet quiet]
      · intro t member r given
        cases answered answers t member _ given
    | written stays found writes lost answers =>
      refine .written (t := t) ?_ found writes (forall_concat kept lost) answers (answered answers)
        (forall_concat stayed stays)
      simp [effects,Turn.changes_of_writes writes]
    | unacknowledged stays found writes lost answers =>
      refine .unacknowledged (t := t) ?_ found writes lost (answered answers)
        (forall_concat stayed stays)
      simp [effects,Turn.changes_of_writes writes]

theorem WriteOutcome.of_ok {r : Receipt} (writing : WriteOutcome i a (callTurns history i a))
    (answered : Answered history i a (.ok r)) :
    ∃ t j, effects history i a = [t] ∧ t.move = .step i ∧ t.before.jobs[i]? = some j ∧
      Job.Writes j.plan.movement r t.before.ledger t.after.ledger := by
  obtain ⟨t₀,member,answers⟩ := answered
  cases writing with
  | unwritten _ _ unanswered => exact absurd answers (unanswered t₀ member r)
  | unacknowledged _ _ _ _ only => cases only t₀ member _ answers
  | @written t j _ effects found writes _ _ only stays =>
    cases only t₀ member _ answers
    have turn := (List.mem_filter.mp (effects ▸ List.mem_singleton_self t)).1
    exact ⟨t,j,effects,stays t turn,found,writes⟩

end WriteOutcomes

theorem runs_writeOutcome (runs : Runs {} history b) (i a : Nat) :
    WriteOutcome i a (callTurns history i a) :=
  (runs_callHistory runs i a).writeOutcome

end DoubleEntry
