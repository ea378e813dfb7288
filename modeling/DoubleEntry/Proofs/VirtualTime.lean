import DoubleEntry.Proofs.Histories

namespace DoubleEntry

-- The job can do nothing now, and does not go on by itself before the time given.
def Job.Sleeps (now : Nat) (l : Ledger) (time : Nat) (j : Job) : Prop :=
  (j.step now l).isNone = true ∧ ∀ due ∈ j.stage.due, time ≤ due

instance (now : Nat) (l : Ledger) (time : Nat) (j : Job) : Decidable (j.Sleeps now l time) :=
  inferInstanceAs (Decidable (_ ∧ _))

def Turn.Timely (t : Turn) : Prop :=
  match t.move with
  | .pass ms => ∀ j ∈ t.before.jobs, j.Sleeps t.before.clock t.before.ledger (t.before.clock + ms)
  | _ => True

instance (t : Turn) : Decidable t.Timely := by
  unfold Turn.Timely
  split <;> infer_instance

def Timely (history : List Turn) : Prop := ∀ t ∈ history, t.Timely

instance (history : List Turn) : Decidable (Timely history) :=
  inferInstanceAs (Decidable (∀ t ∈ history, t.Timely))

def Move.Flows : Move → Prop
  | step _ | pass _ => True
  | _ => False

theorem Timely.append {earlier later : List Turn} (one : Timely earlier) (two : Timely later) :
    Timely (earlier ++ later) := by
  intro t member
  rcases List.mem_append.mp member with before | after
  · exact one t before
  · exact two t after

theorem Timely.earlier {earlier later : List Turn} (timely : Timely (earlier ++ later)) :
    Timely earlier := fun t member => timely t (List.mem_append_left _ member)

theorem Bank.clock_advance {b b' : Bank} {move : Move} (advanced : b.advance move = some b')
    (prompt : ∀ ms, move ≠ .pass ms) : b'.clock = b.clock := by
  cases move with
  | createAccount | arm | setLockHold | setCommitDelay | launch =>
    cases Option.some.inj advanced
    rfl
  | pass ms => exact absurd rfl (prompt ms)
  | step | abort =>
    obtain ⟨_,_,_,_,_,rfl⟩ := updateJob_eq_some advanced
    rfl
  | begin =>
    simp only [advance] at advanced
    split at advanced
    all_goals
      cases Option.some.inj advanced
      rfl
  | call | resume | cancel | drop =>
    obtain ⟨_,_,_,_,_,rfl⟩ := updateClient_eq_some advanced
    rfl

theorem Bank.clock_of_job {b b' : Bank} {move : Move} (advanced : b.advance move = some b')
    (own : move.job? = some i) : b'.clock = b.clock := by
  refine clock_advance advanced ?_
  rintro ms rfl
  cases own

-- What a job keeps at its steps, on banks that are as `F` says, and while it sleeps.
structure Keeps (P : Nat → Job → Prop) (F : Bank → Prop) (i : Nat) : Prop where
  steps : ∀ b j l' j', F b → b.Sound → b.jobs[i]? = some j → P b.clock j →
    j.step b.clock b.ledger = some (l',j') → P b.clock j'
  sleeps : ∀ now l time j, j.Sleeps now l time → now ≤ time → P now j → P time j

section Following
variable {P : Nat → Job → Prop} {F : Bank → Prop} {i : Nat}

theorem Keeps.advance {b b' : Bank} {move : Move} {j : Job} (keeps : Keeps P F i) (sound : b.Sound)
    (favours : F b) (timely : (Turn.mk b move b').Timely) (found : b.jobs[i]? = some j)
    (aborts : move = .abort i → P b.clock { j with stage := .cancelled })
    (advanced : b.advance move = some b') (held : P b.clock j) :
    ∃ j', b'.jobs[i]? = some j' ∧ P b'.clock j' := by
  cases (sound.advances advanced).concerns i with
  | launches _ absent =>
    rw [absent] at found
    cases found
  | aborts here found' _ found'' =>
    cases Option.some.inj (found.symm.trans found')
    rw [Bank.clock_of_job advanced (by rw [here]; rfl)]
    exact ⟨_,found'',aborts here⟩
  | steps here found' =>
    subst here
    obtain ⟨j₁,l',j',found₁,stepped,rfl⟩ := Bank.updateJob_eq_some advanced
    cases Option.some.inj (found.symm.trans found₁)
    have bound := (List.getElem?_eq_some_iff.mp found).1
    exact ⟨j',List.getElem?_set_self bound,keeps.steps b j l' j' favours sound found held stepped⟩
  | passes foreign same =>
    refine ⟨j,same.trans found,?_⟩
    by_cases passing : ∃ ms, move = .pass ms
    · obtain ⟨ms,rfl⟩ := passing
      cases Option.some.inj advanced
      have asleep := timely j (List.mem_of_getElem? found)
      exact keeps.sleeps _ _ _ j asleep (Nat.le_add_right _ ms) held
    · have prompt : ∀ ms, move ≠ .pass ms := fun ms same => passing ⟨ms,same⟩
      rwa [Bank.clock_advance advanced prompt]

theorem Runs.keeps {origin b : Bank} {later : List Turn} {j : Job} (runs : Runs origin later b)
    (keeps : Keeps P F i) (sound : origin.Sound) (timely : Timely later)
    (favours : ∀ t ∈ later, F t.before) (found : origin.jobs[i]? = some j)
    (aborts : ∀ t ∈ later, t.move = .abort i →
      ∀ now j, P now j → P now { j with stage := .cancelled })
    (start : P origin.clock j) : b.Sound ∧ ∃ j', b.jobs[i]? = some j' ∧ P b.clock j' := by
  induction runs with
  | nil => exact ⟨sound,j,found,start⟩
  | @step history before move after runs advanced ih =>
    have inside {t : Turn} (member : t ∈ history) : t ∈ history ++ [⟨before,move,after⟩] :=
      List.mem_append_left _ member
    have last : ⟨before,move,after⟩ ∈ history ++ [⟨before,move,after⟩] := by simp
    obtain ⟨sound',j',found',held⟩ := ih timely.earlier (fun t member => favours t (inside member))
      (fun t member => aborts t (inside member))
    refine ⟨(sound'.advances advanced).sound sound',?_⟩
    exact keeps.advance sound' (favours _ last) (timely _ last) found'
      (fun dropped => aborts _ last dropped _ j' held) advanced held

end Following
end DoubleEntry
