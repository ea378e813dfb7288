import DoubleEntry.Proofs.CallHistories

namespace DoubleEntry

namespace TransferError
variable {cause : StoreError}

theorem kind_of_commit (told : ∀ reason, cause ≠ .connectionLost reason) :
    (store .commit cause).kind = cause.kind := by
  cases cause with
  | connectionLost reason => exact absurd rfl (told reason)
  | notFound | transient | constraint | unavailable => rfl

theorem unknown_of_connectionLost (reason : String) :
    (store .commit (.connectionLost reason)).kind = .indeterminate ∧
      (store .commit (.connectionLost reason)).retryable = false ∧
      (store .commit (.connectionLost reason)).code = "OUTCOME_UNKNOWN" :=
  ⟨rfl,rfl,rfl⟩

end TransferError

section CallHistories
variable {i a : Nat} {b : Bank} {turns : List Turn} {t : Turn} {e : StoreError}

theorem CallHistory.answers_of_lost (calls : CallHistory i a b turns) (member : t ∈ turns)
    (lost : t.lost? = some e) : t.after.Answers i a (.error (.store .commit e)) := by
  have quietly (quiet : t.before.ledger.Quiet t.after.ledger) : False := by
    cases (Turn.lost?_of_quiet quiet).symm.trans lost
  cases calls with
  | ahead | never => cases member
  | underway _ goes => exact (quietly (goes t member).quiet).elim
  | @ended earlier last _ goes ends =>
    rcases List.mem_append.mp member with early | late
    · exact (quietly (goes t early).quiet).elim
    · cases List.mem_singleton.mp late
      cases ends with
      | aborted _ quiet | failed _ quiet => exact (quietly quiet).elim
      | written _ _ _ kept => cases kept.symm.trans lost
      | unacknowledged _ _ _ lost' answers =>
        cases Option.some.inj (lost'.symm.trans lost)
        exact answers

theorem CallHistory.answer_unique (calls : CallHistory i a b turns) {t' : Turn}
    {outcome outcome' : Outcome}
    (member : t ∈ turns) (answers : t.after.Answers i a outcome) (member' : t' ∈ turns)
    (answers' : t'.after.Answers i a outcome') : outcome = outcome' := by
  cases calls with
  | ahead | never => cases member
  | underway _ goes => exact absurd answers (Bank.not_answers_of_call? (goes t member).here)
  | @ended earlier last _ goes ends =>
    have at_last {s : Turn} {given : Outcome} (here : s ∈ earlier ++ [last])
        (answers : s.after.Answers i a given) : s = last := by
      rcases List.mem_append.mp here with early | late
      · exact absurd answers (Bank.not_answers_of_call? (goes s early).here)
      · exact List.mem_singleton.mp late
    cases at_last member answers
    cases at_last member' answers'
    exact Bank.answers_unique answers answers'

end CallHistories

section Running
variable {history : List Turn} {b : Bank} {i a : Nat} {e : TransferError}

theorem answered_of_unacknowledged (runs : Runs {} history b)
    (lost : Unacknowledged history i a cause) :
    Answered history i a (.error (.store .commit cause)) := by
  obtain ⟨t,member,lost⟩ := lost
  exact ⟨t,member,(runs_callHistory runs i a).answers_of_lost member lost⟩

theorem error_of_unacknowledged (runs : Runs {} history b)
    (answered : Answered history i a (.error e)) (lost : Unacknowledged history i a cause) :
    e = .store .commit cause := by
  obtain ⟨t,member,answers⟩ := answered
  obtain ⟨t',member',answers'⟩ := answered_of_unacknowledged runs lost
  have same := (runs_callHistory runs i a).answer_unique member answers member' answers'
  exact Except.error.inj same

theorem unacknowledged_of_effects (runs : Runs {} history b)
    (answered : Answered history i a (.error e)) (written : effects history i a ≠ []) :
    ∃ cause, Unacknowledged history i a cause := by
  obtain ⟨t,member,answers⟩ := answered
  cases runs_writeOutcome runs i a with
  | unwritten effects => exact absurd effects written
  | written _ _ _ _ _ only => cases only t member _ answers
  | @unacknowledged t' _ _ cause effects _ _ lost =>
    have turn := (List.mem_filter.mp (effects ▸ List.mem_singleton_self t')).1
    exact ⟨cause,t',turn,lost⟩

theorem effects_of_unacknowledged (runs : Runs {} history b)
    (lost : Unacknowledged history i a cause) : effects history i a ≠ [] := by
  obtain ⟨t,member,lost⟩ := lost
  cases runs_writeOutcome runs i a with
  | unwritten _ kept | written _ _ _ kept => cases (kept t member).symm.trans lost
  | unacknowledged effects =>
    intro none
    cases effects.symm.trans none

theorem errors_disclose (runs : Runs {} history b) (answered : Answered history i a (.error e)) :
    -- A call that fails has written only if the acknowledgement of its commit was lost,
    (effects history i a ≠ [] ↔
      ∃ cause, Unacknowledged history i a cause ∧ e = .store .commit cause) ∧
    -- which the error says if the connection went away,
    (∀ reason, Unacknowledged history i a (.connectionLost reason) →
      e.kind = .indeterminate ∧ e.retryable = false ∧ e.code = "OUTCOME_UNKNOWN") ∧
    -- and hides only if something else was reported in its place.
    (e.kind ≠ .indeterminate → effects history i a = [] ∨
      ∃ cause, Unacknowledged history i a cause ∧ (∀ reason, cause ≠ .connectionLost reason) ∧
        e.kind = cause.kind) := by
  have written : effects history i a ≠ [] ↔
      ∃ cause, Unacknowledged history i a cause ∧ e = .store .commit cause := by
    constructor
    · intro written
      obtain ⟨cause,lost⟩ := unacknowledged_of_effects runs answered written
      exact ⟨cause,lost,error_of_unacknowledged runs answered lost⟩
    · rintro ⟨cause,lost,_⟩
      exact effects_of_unacknowledged runs lost
  refine ⟨written,?_,?_⟩
  · intro reason lost
    cases error_of_unacknowledged runs answered lost
    exact TransferError.unknown_of_connectionLost reason
  · intro known
    by_cases nothing : effects history i a = []
    · exact .inl nothing
    · obtain ⟨cause,lost,rfl⟩ := written.mp nothing
      have told : ∀ reason, cause ≠ .connectionLost reason := by
        rintro reason rfl
        exact known (TransferError.unknown_of_connectionLost reason).1
      exact .inr ⟨cause,lost,told,TransferError.kind_of_commit told⟩

end Running

def unheard (e : StoreError) : List Move :=
  [.createAccount "alice" .usd 100,.createAccount "bob" .usd 50,.arm .commitAcknowledgement e,
    .launch { request := { source := 1, destination := 2, amount := 30 } },
    .step 0,.step 0,.step 0,.step 0,.step 0,.step 0,.step 0]

theorem vanished_ends : (Bank.replay {} (unheard (.connectionLost "gone"))).isSome = true := by
  decide +kernel

def vanishedRun : List Turn × Bank :=
  (Bank.replay {} (unheard (.connectionLost "gone"))).get vanished_ends

theorem errors_disclose_vanished :
    Runs {} vanishedRun.1 vanishedRun.2 ∧ effects vanishedRun.1 0 0 ≠ [] ∧
      ∃ e, Answered vanishedRun.1 0 0 (.error e) ∧
        e.kind = .indeterminate ∧ e.retryable = false ∧ e.code = "OUTCOME_UNKNOWN" := by
  have runs : Runs {} vanishedRun.1 vanishedRun.2 := runs_of_ends vanished_ends
  have lost : Unacknowledged vanishedRun.1 0 0 (.connectionLost "gone") := by
    unfold Unacknowledged
    decide +kernel
  have answered := answered_of_unacknowledged runs lost
  obtain ⟨written,unknown,_⟩ := errors_disclose runs answered
  exact ⟨runs,written.mpr ⟨_,lost,rfl⟩,_,answered,unknown "gone" lost⟩

theorem conflict_ends : (Bank.replay {} (unheard (.transient "lost"))).isSome = true := by
  decide +kernel

def conflictRun : List Turn × Bank :=
  (Bank.replay {} (unheard (.transient "lost"))).get conflict_ends

-- A conflict may be reported of a commit that was applied, and then a second try books once more.
theorem conflict_hides_commit :
    ¬∀ history b i a e, Runs {} history b → Answered history i a (.error e) →
      e.kind ≠ .indeterminate → effects history i a = [] := by
  intro honest
  have runs : Runs {} conflictRun.1 conflictRun.2 := runs_of_ends conflict_ends
  have lost : Unacknowledged conflictRun.1 0 0 (.transient "lost") := by
    unfold Unacknowledged
    decide +kernel
  have answered := answered_of_unacknowledged runs lost
  have known : (TransferError.store .commit (.transient "lost")).kind ≠ .indeterminate := by decide
  exact effects_of_unacknowledged runs lost (honest _ _ _ _ _ runs answered known)

end DoubleEntry
