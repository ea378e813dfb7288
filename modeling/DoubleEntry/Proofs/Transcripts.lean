import DoubleEntry.Sql.Accounts

namespace DoubleEntry.Sql

abbrev Received := Except DriverError Result

inductive Exchange where
  | sent (statement : Statement) (reply : Received)
  | abandoned

-- A program on a server whose state is in `σ`, with the exchanges so far.
abbrev Recorded (σ : Type) := StateT (List Exchange) (StateM σ)

variable {σ α β : Type}

def transcript (program : Recorded σ α) (v : σ) : List Exchange := (program [] v).1.2

-- The recorded program runs as the plain one does, and what it adds to the transcript is as said.
def Tells (recorded : Recorded σ α) (plain : StateM σ α) (P : List Exchange → α → Prop) : Prop :=
  ∀ log v, ∃ said, recorded log v = (((plain v).1,log ++ said),(plain v).2) ∧ P said (plain v).1

namespace Tells

variable {recorded : Recorded σ α} {plain : StateM σ α} {P : List Exchange → α → Prop}

theorem of_pure {a : α} (silent : P [] a) : Tells (pure a : Recorded σ α) (pure a) P :=
  fun log _ => ⟨[],by rw [List.append_nil]; rfl,silent⟩

theorem weaken {Q : List Exchange → α → Prop} (tells : Tells recorded plain P)
    (weaker : ∀ said a, P said a → Q said a) : Tells recorded plain Q := by
  intro log v
  obtain ⟨said,ran,holds⟩ := tells log v
  exact ⟨said,ran,weaker _ _ holds⟩

theorem bind {onward : α → Recorded σ β} {onward' : α → StateM σ β}
    {Q : α → List Exchange → β → Prop} {R : List Exchange → β → Prop}
    (first : Tells recorded plain P) (second : ∀ a, Tells (onward a) (onward' a) (Q a))
    (joined : ∀ said a more b, P said a → Q a more b → R (said ++ more) b) :
    Tells (recorded >>= onward) (plain >>= onward') R := by
  intro log v
  obtain ⟨said,ran,holds⟩ := first log v
  obtain ⟨more,went,also⟩ := second (plain v).1 (log ++ said) (plain v).2
  refine ⟨said ++ more,?_,joined _ _ _ _ holds also⟩
  rw [←List.append_assoc]
  change (match recorded log v with | ((a,said),v) => onward a said v) = _
  rw [ran]
  exact went

theorem map {f : α → β} (tells : Tells recorded plain P) :
    Tells (do return f (← recorded)) (do return f (← plain))
      fun said b => ∃ a, P said a ∧ b = f a :=
  tells.bind (Q := fun a more b => more = [] ∧ b = f a) (fun _ => of_pure ⟨rfl,rfl⟩) (by
    rintro said a _ _ holds ⟨rfl,rfl⟩
    exact ⟨a,by rwa [List.append_nil],rfl⟩)

theorem transcript (tells : Tells recorded plain P) (v : σ) :
    recorded [] v = (((plain v).1,Sql.transcript recorded v),(plain v).2) ∧
      P (Sql.transcript recorded v) (plain v).1 := by
  obtain ⟨said,ran,holds⟩ := tells [] v
  have same : Sql.transcript recorded v = said := by simp [Sql.transcript,ran]
  rw [same]
  exact ⟨by simpa using ran,holds⟩

end Tells

def fetched (decode : Columns → Decoded α) : Received → Except DriverError (Option α)
  | .error e => .error e
  | .ok result =>
    match result.toRows with
    | [] => .ok none
    | row :: _ => (decode row).map some

variable [server : Connection (StateM σ)]

instance : Connection (Recorded σ) where
  dial url := StateT.lift (server.dial url)
  send statement := do
    let reply ← StateT.lift (server.send statement)
    modify (· ++ [.sent statement reply])
    return reply
  abandon := do
    StateT.lift server.abandon
    modify (· ++ [.abandoned])

theorem send_tells (statement : Statement) :
    Tells (Connection.send statement : Recorded σ _) (Connection.send statement)
      fun said reply => said = [.sent statement reply] :=
  fun _ _ => ⟨_,rfl,rfl⟩

theorem abandon_tells :
    Tells (Connection.abandon : Recorded σ Unit) Connection.abandon
      fun said _ => said = [.abandoned] :=
  fun _ _ => ⟨_,rfl,rfl⟩

theorem fetchOptional_tells (decode : Columns → Decoded α) (statement : Statement) :
    Tells (fetchOptional decode statement : Recorded σ _) (fetchOptional decode statement)
      fun said found => ∃ reply, said = [.sent statement reply] ∧ found = fetched decode reply := by
  refine (send_tells statement).bind
    (Q := fun reply more found => more = [] ∧ found = fetched decode reply) (fun reply => ?_) ?_
  · match reply with
    | .error _ => exact .of_pure ⟨rfl,rfl⟩
    | .ok result =>
      unfold fetched
      dsimp only
      match result.toRows with
      | [] => exact .of_pure ⟨rfl,rfl⟩
      | _ :: _ => exact .of_pure ⟨rfl,rfl⟩
  · rintro _ reply _ _ rfl ⟨rfl,rfl⟩
    exact ⟨reply,rfl,rfl⟩

theorem fetchOne_tells (decode : Columns → Decoded α) (statement : Statement) :
    Tells (fetchOne decode statement : Recorded σ _) (fetchOne decode statement)
      fun said found => ∃ reply, said = [.sent statement reply] ∧
        ∀ a, found = .ok a ↔ fetched decode reply = .ok (some a) := by
  refine (fetchOptional_tells decode statement).bind
    (Q := fun brought more found => more = [] ∧ ∀ a, found = .ok a ↔ brought = .ok (some a))
    (fun brought => ?_) ?_
  · match brought with
    | .error _ => exact .of_pure ⟨rfl,by simp⟩
    | .ok none => exact .of_pure ⟨rfl,by simp⟩
    | .ok (some _) => exact .of_pure ⟨rfl,by simp⟩
  · rintro _ _ _ _ ⟨reply,rfl,rfl⟩ ⟨rfl,brings⟩
    exact ⟨reply,rfl,brings⟩

def ending (statement : Statement) (reply : Received) : List Exchange :=
  .sent statement reply :: match reply with
    | .ok _ => []
    | .error _ => [.abandoned]

theorem finish_tells (statement : Statement) :
    Tells (finish statement : Recorded σ _) (finish statement)
      fun said ended => ∃ reply, said = ending statement reply ∧
        ended = reply.map fun _ => () := by
  refine (send_tells statement).bind
    (Q := fun reply more ended => .sent statement reply :: more = ending statement reply ∧
      ended = reply.map fun _ => ()) (fun reply => ?_) ?_
  · match reply with
    | .ok _ => exact .of_pure ⟨rfl,rfl⟩
    | .error e =>
      refine abandon_tells.bind (Q := fun _ more ended => more = [] ∧ ended = .error e)
        (fun _ => .of_pure ⟨rfl,rfl⟩) ?_
      rintro _ _ _ _ rfl ⟨rfl,rfl⟩
      exact ⟨rfl,rfl⟩
  · rintro _ reply _ _ rfl ⟨told,rfl⟩
    exact ⟨reply,told,rfl⟩

end DoubleEntry.Sql
