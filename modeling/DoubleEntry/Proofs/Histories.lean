import DoubleEntry.Proofs.Custody

namespace DoubleEntry

def Move.job? : Move → Option Nat
  | step i | abort i => some i
  | _ => none

def Stage.call? : Stage → Option Nat
  | running _ _ _ (.ended _) _ => none
  | running n _ _ _ _ => some n
  | _ => none

def Stage.receipt? : Stage → Option Receipt
  | finished (.ok r) _ => some r
  | _ => none

theorem Stage.of_receipt? {stage : Stage} (returned : stage.receipt? = some r) :
    ∃ time, stage = finished (.ok r) time := by
  unfold Stage.receipt? at returned
  split at returned
  · rename_i time
    cases Option.some.inj returned
    exact ⟨time,rfl⟩
  · cases returned

namespace Bank

def call? (b : Bank) (i : Nat) : Option Nat := b.jobs[i]?.bind (·.stage.call?)

def tx? (b : Bank) (i : Nat) : Option TxId := b.jobs[i]?.bind Job.tx?

def receipt? (b : Bank) (i : Nat) : Option Receipt := b.jobs[i]?.bind (·.stage.receipt?)

def Answers (b : Bank) (i a : Nat) (outcome : Outcome) : Prop :=
  ∃ j tx d w, b.jobs[i]? = some j ∧ j.stage = .running a tx d (.ended outcome) w

inductive Concerns (i : Nat) (b : Bank) (move : Move) (b' : Bank) : Prop where
  | passes (foreign : move.job? ≠ some i) (same : b'.jobs[i]? = b.jobs[i]?)
  | launches {plan : JobPlan} (foreign : move.job? ≠ some i) (absent : b.jobs[i]? = none)
      (found : b'.jobs[i]? = some (Job.start b.clock b.ledger plan))
  | steps {j j' : Job} (here : move = .step i) (found : b.jobs[i]? = some j)
      (found' : b'.jobs[i]? = some j') (moves : j.Moves b.ledger b'.ledger j')
  | aborts {j : Job} (here : move = .abort i) (found : b.jobs[i]? = some j)
      (free : j.stage.interruptible = true)
      (found' : b'.jobs[i]? = some { j with stage := .cancelled })
      (closes : b.ledger.Closes (j.acting b.ledger) b'.ledger) (quiet : b.ledger.Quiet b'.ledger)

theorem job?_of_arranges {move : Move} (arranging : move.Arranges) : move.job? = none := by
  cases move <;> first | rfl | cases arranging

theorem job?_of_hand {move : Move} (hand : ¬move.Transferring) : move.job? = none := by
  cases move <;> first | rfl | exact absurd trivial hand

theorem Advances.concerns {b b' : Bank} (advances : b.Advances move b') (i : Nat) :
    Concerns i b move b' := by
  cases advances with
  | opens => exact .passes (by simp [Move.job?]) rfl
  | arranges arranging _ _ _ jobs _ =>
    exact .passes (by simp [job?_of_arranges arranging]) (by rw [jobs])
  | byHand hand _ _ _ _ jobs => exact .passes (by simp [job?_of_hand hand]) (by rw [jobs])
  | launches =>
    by_cases here : i = b.jobs.length
    · subst here
      exact .launches (by simp [Move.job?]) (List.getElem?_eq_none (Nat.le_refl _))
        List.getElem?_concat_length
    · exact .passes (by simp [Move.job?]) (getElem?_concat_ne here)
  | @steps k j j' l' found moves =>
    have bound := (List.getElem?_eq_some_iff.mp found).1
    by_cases here : k = i
    · subst here
      exact .steps rfl found (List.getElem?_set_self bound) moves
    · exact .passes (by simpa [Move.job?] using here) (List.getElem?_set_ne here)
  | @aborts k j l' found free closes quiet =>
    have bound := (List.getElem?_eq_some_iff.mp found).1
    by_cases here : k = i
    · subst here
      exact .aborts rfl found free (List.getElem?_set_self bound) closes quiet
    · exact .passes (by simpa [Move.job?] using here) (List.getElem?_set_ne here)

theorem Advances.acts {b b' : Bank} (sound : b.Sound) (advances : b.Advances move b') :
    ∃ tx, b.ledger.Acts tx b'.ledger ∧ (b.ledger.Live tx ∨ tx = b.ledger.nextTx) := by
  have acting {i : Nat} {j : Job} (found : b.jobs[i]? = some j) :
      b.ledger.Live (j.acting b.ledger) ∨ j.acting b.ledger = b.ledger.nextTx := by
    unfold Job.acting
    cases owns : j.tx? with
    | none => exact .inr rfl
    | some t => exact .inl (Actor.live_of_job (sound.job found) owns)
  cases advances with
  | opens => exact ⟨_,Ledger.acts_createAccount sound.ledger _ _ _ _ _,.inr rfl⟩
  | arranges _ acts => exact ⟨_,acts,.inr rfl⟩
  | launches => exact ⟨_,.refl sound.ledger _,.inr rfl⟩
  | steps found moves => exact ⟨_,moves.acts,acting found⟩
  | aborts found _ closes => exact ⟨_,closes.acts,acting found⟩
  | byHand _ _ acts unspent => exact ⟨_,acts,unspent⟩

theorem Advances.grows {b b' : Bank} (advances : b.Advances move b') :
    b.ledger.Grows b'.ledger := by
  cases advances with
  | opens | launches => exact ⟨List.prefix_rfl,List.prefix_rfl⟩
  | arranges _ _ books =>
    have entries : b'.ledger.entries = b.ledger.entries := congrArg Books.entries books
    have transfers : b'.ledger.transfers = b.ledger.transfers := congrArg Books.transfers books
    exact ⟨entries ▸ List.prefix_rfl,transfers ▸ List.prefix_rfl⟩
  | aborts _ _ _ quiet => exact quiet.grows
  | byHand _ _ _ _ grows => exact grows
  | steps _ moves =>
    cases moves.does with
    | quietly quiet => exact quiet.grows
    | writes _ writes | unacknowledged _ writes => exact writes.grows

theorem sound_empty : ({} : Bank).Sound := by
  have nobody : ∀ a, ({} : Bank).at? a = none := by
    intro a
    cases a <;> rfl
  refine ⟨⟨?_,?_,?_,?_⟩,?_,?_⟩
  · intro n r found
    cases found
  · intro id r found
    cases found
  · rintro id tx ⟨r,found,_⟩
    cases found
  · rintro tx ⟨t,found⟩
    cases found
  · intro a x here
    rw [nobody] at here
    cases here
  · intro a a' x x' tx here
    rw [nobody] at here
    cases here

end Bank

-- What holds at the start and is kept by every move of a sound bank holds of every run.
theorem Runs.kept {P : List Turn → Bank → Prop} (runs : Runs {} history b) (start : P [] {})
    (keeps : ∀ history before move after, Runs {} history before → before.Sound →
      before.advance move = some after → P history before →
      P (history ++ [⟨before,move,after⟩]) after) : b.Sound ∧ P history b := by
  generalize origin : ({} : Bank) = first at runs
  induction runs with
  | nil =>
    subst origin
    exact ⟨Bank.sound_empty,start⟩
  | step earlier advanced ih =>
    subst origin
    obtain ⟨sound,before⟩ := ih
    exact ⟨(sound.advances advanced).sound sound,keeps _ _ _ _ earlier sound advanced before⟩

-- The same, with what the move comes to in place of how it is computed.
theorem Runs.invariant {P : List Turn → Bank → Prop} (runs : Runs {} history b) (start : P [] {})
    (keeps : ∀ history before move after, Runs {} history before → before.Sound →
      before.Advances move after → P history before →
      P (history ++ [⟨before,move,after⟩]) after) : b.Sound ∧ P history b :=
  runs.kept start fun _ _ _ _ earlier sound advanced before =>
    keeps _ _ _ _ earlier sound (sound.advances advanced) before

theorem Runs.within {P : List Turn → Bank → Prop} {M : Move → Prop} (runs : Runs {} history b)
    (moves : ∀ t ∈ history, M t.move) (start : P [] {})
    (keeps : ∀ history before move after, Runs {} history before →
      (∀ t ∈ history, M t.move) → before.Sound → before.Advances move after → M move →
      P history before → P (history ++ [⟨before,move,after⟩]) after) : P history b := by
  refine (runs.invariant (P := fun history b => (∀ t ∈ history, M t.move) → P history b)
    (fun _ => start) ?_).2 moves
  intro history before move after runs sound advances earlier moves
  have within : ∀ t ∈ history, M t.move := fun t member => moves t (List.mem_append_left _ member)
  have now : M move :=
    moves ⟨before,move,after⟩ (List.mem_append_right _ (List.mem_singleton_self _))
  exact keeps _ _ _ _ runs within sound advances now (earlier within)

theorem runs_sound (runs : Runs {} history b) : b.Sound :=
  (runs.invariant (P := fun _ _ => True) trivial fun _ _ _ _ _ _ _ _ => trivial).1

namespace Turn
variable {t : Turn}

def call? (t : Turn) (i : Nat) : Option Nat :=
  if t.move.job? = some i then t.before.call? i else none

def lost? (t : Turn) : Option StoreError :=
  match t.after.ledger.fault? .commitAcknowledgement with
  | none => t.before.ledger.fault? .commitAcknowledgement
  | some _ => none

def booked (t : Turn) : List Transfer :=
  t.after.ledger.transfers.drop t.before.ledger.transfers.length

def Changes (t : Turn) : Prop := t.after.ledger.books ≠ t.before.ledger.books

instance (t : Turn) : Decidable t.Changes := by
  unfold Changes
  infer_instance

end Turn

def callTurns (history : List Turn) (i a : Nat) : List Turn :=
  history.filter fun t => t.call? i = some a

def effects (history : List Turn) (i a : Nat) : List Turn :=
  (callTurns history i a).filter fun t => t.Changes

def Answered (history : List Turn) (i a : Nat) (outcome : Outcome) : Prop :=
  ∃ t ∈ callTurns history i a, t.after.Answers i a outcome

def Aborted (history : List Turn) (i a : Nat) : Prop :=
  ∃ t ∈ callTurns history i a, t.move = .abort i

def Unacknowledged (history : List Turn) (i a : Nat) (e : StoreError) : Prop :=
  ∃ t ∈ callTurns history i a, t.lost? = some e

def Used (history : List Turn) (i a : Nat) (tx : TxId) : Prop :=
  ∃ t ∈ callTurns history i a, t.after.tx? i = some tx

end DoubleEntry
