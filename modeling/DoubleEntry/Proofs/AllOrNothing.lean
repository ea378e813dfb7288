import DoubleEntry.Proofs.CallHistories

namespace DoubleEntry
variable {history : List Turn} {b : Bank} {i a : Nat} {tx : TxId}

def Bank.Holding (b : Bank) (i a : Nat) (tx : TxId) : Prop :=
  b.call? i = some a ∧ b.tx? i = some tx

theorem Bank.holding_iff : b.Holding i a tx ↔
    ∃ j, b.jobs[i]? = some j ∧ j.stage.call? = some a ∧ j.tx? = some tx := by
  unfold Holding Bank.call? Bank.tx?
  cases b.jobs[i]? <;> simp

theorem used_snoc {t : Turn} (used : Used (history ++ [t]) i a tx) :
    Used history i a tx ∨ t.call? i = some a ∧ t.after.tx? i = some tx := by
  obtain ⟨t',member,owned⟩ := used
  rw [callTurns_snoc,List.mem_append] at member
  rcases member with earlier | last
  · exact .inl ⟨t',earlier,owned⟩
  · split at last
    · rename_i mine
      cases List.mem_singleton.mp last
      exact .inr ⟨mine,owned⟩
    · cases last

namespace Job
variable {l l' : Ledger} {j j' : Job}

theorem Moves.call? (moves : j.Moves l l' j') (inside : j.stage.call? = some a)
    (owns : j'.tx? = some tx) : j'.stage.call? = some a := by
  unfold Job.tx? at owns
  cases moves.does with
  | quietly _ follows =>
    rcases follows.here inside with goes | ⟨_,_,_,_,stage⟩
    · exact goes
    · rw [stage] at owns
      cases owns
  | writes _ _ _ answered | unacknowledged _ _ _ answered =>
    rw [answered] at owns
    cases owns

end Job

namespace Bank
variable {before after : Bank} {move : Move}

theorem Holding.live (sound : b.Sound) (holding : b.Holding i a tx) : b.ledger.Live tx := by
  obtain ⟨j,found,_,owns⟩ := holding_iff.mp holding
  exact Actor.live_of_job (sound.job found) owns

theorem Holding.kept (sound : before.Sound) (advances : before.Advances move after)
    (holding : before.Holding i a tx) : after.Holding i a tx ∨ after.Spent tx := by
  have live := holding.live sound
  obtain ⟨acting,acts,_⟩ := advances.acts sound
  have older : tx < after.ledger.begun :=
    Nat.lt_of_lt_of_le (sound.ledger.fresh tx live) acts.begun
  obtain ⟨j,found,inside,owns⟩ := holding_iff.mp holding
  have own : j.acting before.ledger = tx := by rw [Job.acting,owns]; rfl
  cases advances.concerns i with
  | passes _ same => exact .inl (holding_iff.mpr ⟨j,same.trans found,inside,owns⟩)
  | launches _ absent =>
    rw [absent] at found
    cases found
  | aborts _ found' _ _ closes =>
    cases Option.some.inj (found.symm.trans found')
    exact .inr ⟨own ▸ closes.gone,older⟩
  | steps _ found' found'' moves =>
    cases Option.some.inj (found.symm.trans found')
    rcases moves.owns with still | ⟨_,gone⟩
    · rw [own] at still
      exact .inl (holding_iff.mpr ⟨_,found'',moves.call? inside still,still⟩)
    · exact .inr ⟨own ▸ gone,older⟩

end Bank

theorem runs_used (runs : Runs {} history b) (i a : Nat) :
    ∀ tx, Used history i a tx → b.Holding i a tx ∨ b.Spent tx := by
  refine (runs.invariant (P := fun history b =>
    ∀ tx, Used history i a tx → b.Holding i a tx ∨ b.Spent tx) ?_ ?_).2
  · rintro tx ⟨t,member,_⟩
    cases member
  · intro history before move after _ sound advances earlier tx used
    rcases used_snoc used with old | ⟨mine,owned⟩
    · rcases earlier tx old with holding | spent
      · exact holding.kept sound advances
      · obtain ⟨acting,acts,unspent⟩ := advances.acts sound
        exact .inr (Bank.spent_of_acts spent acts unspent)
    · obtain ⟨own,here⟩ := Turn.call?_eq_some.mp mine
      obtain ⟨j,found,inside⟩ := Bank.call?_eq_some.mp here
      obtain ⟨j',found',owns⟩ := Option.bind_eq_some_iff.mp owned
      refine .inl (Bank.holding_iff.mpr ⟨j',found',?_,owns⟩)
      cases advances.concerns i with
      | passes foreign | launches foreign => exact absurd own foreign
      | aborts _ _ _ found'' =>
        cases Option.some.inj (found'.symm.trans found'')
        cases owns
      | steps _ found₁ found₂ moves =>
        cases Option.some.inj (found.symm.trans found₁)
        cases Option.some.inj (found'.symm.trans found₂)
        exact moves.call? inside owns

theorem spent_of_runs {later : List Turn} {b' : Bank} (sound : b.Sound) (onward : Runs b later b')
    (spent : b.Spent tx) : b'.Spent tx := by
  have kept : b'.Sound ∧ b'.Spent tx := by
    induction onward with
    | nil => exact ⟨sound,spent⟩
    | step _ advanced ih =>
      obtain ⟨sound',spent'⟩ := ih
      have advances := sound'.advances advanced
      obtain ⟨acting,acts,unspent⟩ := advances.acts sound'
      exact ⟨advances.sound sound',Bank.spent_of_acts spent' acts unspent⟩
  exact kept.2

theorem spent_of_ended (runs : Runs {} history b) (ended : b.call? i ≠ some a)
    (used : Used history i a tx) : b.Spent tx :=
  (runs_used runs i a tx used).resolve_left fun holding => ended holding.1

theorem not_seated_of_ended (runs : Runs {} history b) (ended : b.call? i ≠ some a)
    (used : Used history i a tx) (id : AccountId) : ¬b.ledger.Seated tx id := by
  have spent := spent_of_ended runs ended used
  exact Ledger.not_seated_of_closed (runs_sound runs).ledger spent.1 id

section WriteOutcomes
variable (writing : WriteOutcome i a (callTurns history i a))
include writing

theorem WriteOutcome.effects : effects history i a = [] ∨
    ∃ t j r, effects history i a = [t] ∧ t.before.jobs[i]? = some j ∧
      Job.Writes j.plan.movement r t.before.ledger t.after.ledger := by
  cases writing with
  | unwritten effects => exact .inl effects
  | written effects found writes | unacknowledged effects found writes =>
    exact .inr ⟨_,_,_,effects,found,writes⟩

theorem WriteOutcome.effects_ne_nil : DoubleEntry.effects history i a ≠ [] ↔
    (∃ r, Answered history i a (.ok r)) ∨ ∃ e, Unacknowledged history i a e := by
  have mem {t : Turn} (effects : DoubleEntry.effects history i a = [t]) :
      t ∈ callTurns history i a :=
    (List.mem_filter.mp (effects ▸ List.mem_singleton_self t)).1
  cases writing with
  | unwritten effects kept unanswered =>
    refine ⟨fun changed => absurd effects changed,?_⟩
    rintro (⟨r,t,member,answers⟩ | ⟨e,t,member,lost⟩)
    · exact absurd answers (unanswered t member r)
    · rw [kept t member] at lost
      cases lost
  | written effects _ _ _ answers =>
    refine ⟨fun _ => .inl ⟨_,_,mem effects,answers⟩,fun _ none => ?_⟩
    cases effects.symm.trans none
  | unacknowledged effects _ _ lost =>
    refine ⟨fun _ => .inr ⟨_,_,mem effects,lost⟩,fun _ none => ?_⟩
    cases effects.symm.trans none

theorem WriteOutcome.unwritten_of_late
    (late : (∃ limit, Answered history i a (.error (.timeout limit))) ∨
    (∃ limit, Answered history i a (.error (.commitTimeout limit))) ∨ Aborted history i a) :
    DoubleEntry.effects history i a = [] := by
  cases writing with
  | unwritten effects => exact effects
  | written _ _ _ _ _ only stays | unacknowledged _ _ _ _ only stays =>
    rcases late with ⟨_,t,member,answers⟩ | ⟨_,t,member,answers⟩ | ⟨t,member,dropped⟩
    · cases only t member _ answers
    · cases only t member _ answers
    · rw [stays t member] at dropped
      cases dropped

end WriteOutcomes

theorem call_all_or_nothing (runs : Runs {} history b) (i a : Nat) :
    -- All five writes in one step, or none at all.
    (effects history i a = [] ∨
      ∃ t j r, effects history i a = [t] ∧ t.before.jobs[i]? = some j ∧
        Job.Writes j.plan.movement r t.before.ledger t.after.ledger) ∧
    (effects history i a ≠ [] ↔
      (∃ r, Answered history i a (.ok r)) ∨ ∃ e, Unacknowledged history i a e) ∧
    -- What was late or dropped has committed nothing and never will.
    ((∃ limit, Answered history i a (.error (.timeout limit))) ∨
        (∃ limit, Answered history i a (.error (.commitTimeout limit))) ∨ Aborted history i a →
      ∀ later b', Runs b later b' → effects (history ++ later) i a = []) ∧
    -- What is over has its transaction closed for good, and no seat at any row.
    (b.call? i ≠ some a → ∀ tx, Used history i a tx →
      (∀ id, ¬b.ledger.Seated tx id) ∧
        ∀ later b', Runs b later b' → b'.Spent tx ∧ ∀ id, ¬b'.ledger.Seated tx id) := by
  have writing := runs_writeOutcome runs i a
  refine ⟨writing.effects,writing.effects_ne_nil,?_,?_⟩
  · intro late later b' onward
    refine (runs_writeOutcome (runs.append onward) i a).unwritten_of_late ?_
    rcases late with ⟨limit,t,member,answers⟩ | ⟨limit,t,member,answers⟩ | ⟨t,member,dropped⟩
    · exact .inl ⟨limit,t,mem_callTurns_append member later,answers⟩
    · exact .inr (.inl ⟨limit,t,mem_callTurns_append member later,answers⟩)
    · exact .inr (.inr ⟨t,mem_callTurns_append member later,dropped⟩)
  · intro ended tx used
    refine ⟨not_seated_of_ended runs ended used,?_⟩
    intro later b' onward
    have spent := spent_of_runs (runs_sound runs) onward (spent_of_ended runs ended used)
    have sound := runs_sound (runs.append onward)
    exact ⟨spent,Ledger.not_seated_of_closed sound.ledger spent.1⟩

-- The first transfer was written although its acknowledgement was lost; the last one was dropped
-- while it held the row it had waited for.
theorem call_all_or_nothing_contended :
    Runs {} contendedRun.1 contendedRun.2 ∧
      Unacknowledged contendedRun.1 0 0 (.transient "lost") ∧ effects contendedRun.1 0 0 ≠ [] ∧
      Aborted contendedRun.1 2 0 ∧ effects contendedRun.1 2 0 = [] ∧
      Used contendedRun.1 2 0 2 ∧ ¬contendedRun.2.ledger.Seated 2 1 := by
  have runs := runs_contended
  have lost : Unacknowledged contendedRun.1 0 0 (.transient "lost") := by
    unfold Unacknowledged
    decide +kernel
  have dropped : Aborted contendedRun.1 2 0 := by
    unfold Aborted
    decide +kernel
  have used : Used contendedRun.1 2 0 2 := by
    unfold Used
    decide +kernel
  obtain ⟨_,written,_,_⟩ := call_all_or_nothing runs 0 0
  obtain ⟨_,_,never,unseated⟩ := call_all_or_nothing runs 2 0
  refine ⟨runs,lost,written.mpr (.inr ⟨_,lost⟩),dropped,?_,used,?_⟩
  · simpa using never (.inr (.inr dropped)) [] _ .nil
  · exact (unseated (by decide +kernel) 2 used).1 1

end DoubleEntry
