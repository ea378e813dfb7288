import DoubleEntry.Proofs.DriverErrors
import DoubleEntry.Proofs.Transcripts

namespace DoubleEntry

namespace Sql

-- The statements of a transfer in their order. The account with the smaller id is updated first.
def steps (m : Movement) : List Statement :=
  [.insertTransfer m.source m.destination m.amount,
    .insertEntry m.source (-m.amount),
    .insertEntry m.destination m.amount] ++
  if m.source ≤ m.destination then
    [.addToBalance m.source (-m.amount),.addToBalance m.destination m.amount]
  else [.addToBalance m.destination m.amount,.addToBalance m.source (-m.amount)]

def Statement.decodes (row : Columns) : Statement → Bool
  | insertTransfer _ _ _ => (decodeTransfer row).isOk
  | insertEntry _ _ => (decodeEntry row).isOk
  | addToBalance _ _ => (decodeAccount row).isOk
  | _ => true

def Accepted (sent : Statement × Received) : Prop :=
  ∃ result row rest, sent.2 = .ok result ∧ result.toRows = row :: rest ∧ sent.1.decodes row = true

inductive Round where
  | unopened (cause : DriverError)
  | opened (reply : Result) (body : List (Statement × Received)) (last : Statement)
    (answer : Received)

namespace Round

def exchanges : Round → List Exchange
  | unopened cause => [.sent .begin (.error cause)]
  | opened reply body last answer =>
    .sent .begin (.ok reply) :: body.map (fun (s,r) => .sent s r) ++ ending last answer

-- The steps are taken in order until one is not accepted. All five: COMMIT. One refused: ROLLBACK.
def Lawful (m : Movement) : Round → Prop
  | unopened _ => True
  | opened _ body last _ =>
    body.map Prod.fst <+: steps m ∧ (∀ sent ∈ body.dropLast, Accepted sent) ∧
      (last = .commit ∧ body.map Prod.fst = steps m ∧ (∀ sent ∈ body, Accepted sent) ∨
        last = .rollback ∧ ∃ sent ∈ body, ¬Accepted sent)

-- The COMMIT succeeded, or failed in a way that does not say that nothing was committed.
def Settles : Round → Prop
  | opened _ _ .commit answer => ∀ e, answer = .error e → ¬e.Conflict
  | _ => False

end Round

-- What is sent in a transaction with these statements still due, and how the transaction is ended.
inductive Sequel : List Statement → List (Statement × Received) → Statement → Prop where
  | complete : Sequel [] [] .commit
  | refused {due : List Statement} {s : Statement} {reply : Received}
      (refusal : ¬Accepted (s,reply)) : Sequel (s :: due) [(s,reply)] .rollback
  | taken {due : List Statement} {s last : Statement} {reply : Received}
      {body : List (Statement × Received)} (accepted : Accepted (s,reply))
      (onward : Sequel due body last) : Sequel (s :: due) ((s,reply) :: body) last

theorem Sequel.lawful {due : List Statement} {body : List (Statement × Received)} {last : Statement}
    (sequel : Sequel due body last) :
    body.map Prod.fst <+: due ∧ (∀ sent ∈ body.dropLast, Accepted sent) ∧
      (last = .commit ∧ body.map Prod.fst = due ∧ (∀ sent ∈ body, Accepted sent) ∨
        last = .rollback ∧ ∃ sent ∈ body, ¬Accepted sent) := by
  induction sequel with
  | complete => simp
  | refused refusal => simpa using refusal
  | @taken due s last reply body accepted _ lawful =>
    obtain ⟨order,taken,ends⟩ := lawful
    refine ⟨by simpa using order,?_,?_⟩
    · intro sent member
      cases body with
      | nil => cases member
      | cons next rest =>
        rw [List.dropLast_cons_cons] at member
        rcases List.mem_cons.mp member with rfl | member
        · exact accepted
        · exact taken sent member
    · rcases ends with ⟨rfl,all,accepts⟩ | ⟨rfl,sent,member,refusal⟩
      · refine .inl ⟨rfl,by simp [all],?_⟩
        intro sent member
        rcases List.mem_cons.mp member with rfl | member
        · exact accepted
        · exact accepts sent member
      · exact .inr ⟨rfl,sent,List.mem_cons_of_mem _ member,refusal⟩

theorem accepted_iff_fetched {decode : Columns → Decoded α} {s : Statement}
    (decodes : ∀ row, s.decodes row = (decode row).isOk) (reply : Received) :
    Accepted (s,reply) ↔ ∃ a, fetched decode reply = .ok (some a) := by
  constructor
  · rintro ⟨result,row,rest,rfl,first,decoded⟩
    rw [decodes] at decoded
    cases is : decode row with
    | error _ => simp [is,Except.isOk,Except.toBool] at decoded
    | ok a => exact ⟨a,by simp [fetched,first,is,Except.map]⟩
  · rintro ⟨a,brought⟩
    cases reply with
    | error _ => cases brought
    | ok result =>
      cases first : result.toRows with
      | nil => simp [fetched,first] at brought
      | cons row rest =>
        refine ⟨result,row,rest,rfl,first,?_⟩
        rw [decodes]
        cases is : decode row with
        | error _ => simp [fetched,first,is,Except.map] at brought
        | ok _ => rfl

theorem asStoreError_eq_ok {found : Except DriverError α} {a : α} :
    asStoreError found = .ok a ↔ found = .ok a := by
  cases found with
  | error _ => exact ⟨nofun,nofun⟩
  | ok _ => constructor <;> rintro ⟨⟩ <;> rfl

theorem present_eq_ok {id : AccountId} {found : Except DriverError (Option Account)} {a : Account} :
    present id found = .ok a ↔ found = .ok (some a) := by
  match found with
  | .error _ | .ok none => exact ⟨nofun,nofun⟩
  | .ok (some _) => constructor <;> rintro ⟨⟩ <;> rfl

variable {σ : Type} {m : Movement} {limit : Duration} {p : Phase}

-- What is left of a transaction. A COMMIT that settles leaves no outcome to be tried again.
def Ends (due : List Statement) (said : List Exchange) (outcome : Outcome) : Prop :=
  ∃ body last reply, said = body.map (fun (s,r) => .sent s r) ++ ending last reply ∧
    Sequel due body last ∧
    (last = .commit → (∀ e, reply = .error e → ¬e.Conflict) →
      ∀ e, outcome = .error e → e.retryable = false)

-- Rounds one after another. Behind an outcome that may be tried again, none has settled.
def Converses (m : Movement) (said : List Exchange) (outcome : Outcome) : Prop :=
  ∃ rounds : List Round, said = rounds.flatMap Round.exchanges ∧
    (∀ round ∈ rounds, round.Lawful m) ∧
    rounds.Pairwise (fun earlier _ => ¬earlier.Settles) ∧
    (∀ e, outcome = .error e → e.retryable = true → ∀ round ∈ rounds, ¬round.Settles)

theorem Converses.append {said more : List Exchange} {outcome : Outcome} {e : TransferError}
    (first : Converses m said (.error e)) (retryable : e.retryable = true)
    (second : Converses m more outcome) : Converses m (said ++ more) outcome := by
  obtain ⟨rounds,rfl,lawful,_,open'⟩ := first
  obtain ⟨later,rfl,lawful',apart,open''⟩ := second
  have unsettled := open' e rfl retryable
  refine ⟨rounds ++ later,List.flatMap_append.symm,?_,?_,?_⟩
  · intro round member
    rcases List.mem_append.mp member with early | late
    · exact lawful round early
    · exact lawful' round late
  · refine List.pairwise_append.mpr ⟨?_,apart,fun round early _ _ => unsettled round early⟩
    exact List.pairwise_of_forall_mem_list fun round early _ _ => unsettled round early
  · intro e failed retryable round member
    rcases List.mem_append.mp member with early | late
    · exact unsettled round early
    · exact open'' e failed retryable round late

theorem runFrom_converses {submit : Recorded σ Outcome} {submit' : StateM σ Outcome}
    (once : Tells submit submit' (Converses m)) (policy : RetryPolicy) (attempt : Nat) :
    Tells (policy.runFrom submit (fun _ => pure ()) attempt)
      (policy.runFrom submit' (fun _ => pure ()) attempt) (Converses m) := by
  induction left : policy.maxRetries - attempt using Nat.strongRecOn generalizing attempt with
  | ind left again =>
    rw [policy.runFrom_eq submit,policy.runFrom_eq submit']
    refine once.bind (Q := fun outcome more final => (policy.again? attempt outcome).elim
      (more = [] ∧ final = outcome) fun _ => Converses m more final) (fun outcome => ?_) ?_
    · cases wait : policy.again? attempt outcome with
      | none => exact .of_pure ⟨rfl,rfl⟩
      | some ticks =>
        have allowed := RetryPolicy.lt_of_again? wait
        exact again _ (by omega) (attempt + 1) rfl
    · intro said outcome more final converses onward
      cases wait : policy.again? attempt outcome with
      | none =>
        rw [wait] at onward
        obtain ⟨rfl,rfl⟩ := onward
        rwa [List.append_nil]
      | some ticks =>
        rw [wait] at onward
        cases outcome with
        | ok _ => cases wait
        | error e => exact converses.append (RetryPolicy.retryable_of_again? wait) onward

def Looks (said : List Exchange) : Prop :=
  ∀ exchange ∈ said, ∃ id reply, exchange = .sent (.selectAccount id) reply

theorem Looks.nil : Looks [] := List.forall_mem_nil _

theorem Looks.append {said more : List Exchange} (first : Looks said) (second : Looks more) :
    Looks (said ++ more) := by
  intro exchange member
  rcases List.mem_append.mp member with early | late
  · exact first exchange early
  · exact second exchange late

def Checks (recorded : ExceptT TransferError (Recorded σ) α)
    (plain : ExceptT TransferError (StateM σ) α) : Prop :=
  Tells recorded.run plain.run fun said _ => Looks said

theorem Checks.of_pure (a : α) : Checks (σ := σ) (pure a) (pure a) := Tells.of_pure .nil

theorem Checks.of_throw (e : TransferError) : Checks (σ := σ) (α := α) (throw e) (throw e) :=
  Tells.of_pure .nil

theorem Checks.of_except (x : Except TransferError α) :
    Checks (σ := σ) (liftExcept x) (liftExcept x) := by
  cases x
  · exact .of_throw _
  · exact .of_pure _

theorem Checks.bind {recorded : ExceptT TransferError (Recorded σ) α}
    {plain : ExceptT TransferError (StateM σ) α}
    {onward : α → ExceptT TransferError (Recorded σ) β}
    {onward' : α → ExceptT TransferError (StateM σ) β} (first : Checks recorded plain)
    (second : ∀ a, Checks (onward a) (onward' a)) :
    Checks (recorded >>= onward) (plain >>= onward') := by
  unfold Checks
  rw [ExceptT.run_bind,ExceptT.run_bind]
  refine Tells.bind (Q := fun _ said _ => Looks said) first (fun checked => ?_)
    fun _ _ _ _ => Looks.append
  cases checked with
  | ok a => exact second a
  | error e => exact .of_pure .nil

section Requests
variable [Connection (StateM σ)]

-- A call inside a transaction is one statement, and it succeeds if that is accepted.
def Asks (call : Call) (s : Statement) : Prop :=
  Tells (answer call : Recorded σ _) (answer call) fun said row =>
    ∃ reply, said = [.sent s reply] ∧ (Accepted (s,reply) ↔ ∃ a, row = .ok a)

theorem fetchOne_asks (decode : Columns → Decoded α) {s : Statement}
    (decodes : ∀ row, s.decodes row = (decode row).isOk) :
    Tells (do return asStoreError (← fetchOne decode s) : Recorded σ _)
      (do return asStoreError (← fetchOne decode s))
      fun said row => ∃ reply, said = [.sent s reply] ∧ (Accepted (s,reply) ↔ ∃ a, row = .ok a) := by
  refine (fetchOne_tells _ _).map.weaken ?_
  rintro _ row ⟨found,⟨reply,rfl,brings⟩,rfl⟩
  refine ⟨reply,rfl,?_⟩
  rw [accepted_iff_fetched decodes]
  exact exists_congr fun a => (brings a).symm.trans asStoreError_eq_ok.symm

theorem insertTransfer_asks (source destination : AccountId) (amount : Int) :
    Asks (σ := σ) (.insertTransfer source destination amount)
      (.insertTransfer source destination amount) :=
  fetchOne_asks decodeTransfer fun _ => rfl

theorem insertEntry_asks (account : AccountId) (amount : Int) :
    Asks (σ := σ) (.insertEntry account amount) (.insertEntry account amount) :=
  fetchOne_asks decodeEntry fun _ => rfl

theorem addToBalance_asks (id : AccountId) (delta : Int) :
    Asks (σ := σ) (.addToBalance id delta) (.addToBalance id delta) := by
  refine (fetchOptional_tells _ _).map.weaken ?_
  rintro _ row ⟨_,⟨reply,rfl,rfl⟩,rfl⟩
  refine ⟨reply,rfl,?_⟩
  rw [accepted_iff_fetched (fun _ => rfl)]
  exact exists_congr fun a => present_eq_ok.symm

theorem ended_tells {outcome : Outcome} {P : List Exchange → Outcome → Prop}
    (silent : P [] outcome) :
    Tells ((Phase.ended outcome).drive m limit answer : Recorded σ _)
      ((Phase.ended outcome).drive m limit answer) P := by
  rw [Phase.drive_ended,Phase.drive_ended]
  exact .of_pure silent

theorem rollingBack_tells (cause : TransferError) :
    Tells ((Phase.rollingBack cause).drive m limit answer : Recorded σ _)
      ((Phase.rollingBack cause).drive m limit answer)
      fun said _ => ∃ reply, said = ending .rollback reply := by
  rw [Phase.drive_await rfl,Phase.drive_await (p := .rollingBack cause) rfl]
  refine (finish_tells .rollback).map.bind (Q := fun _ more _ => more = [])
    (fun _ => ended_tells rfl) ?_
  rintro _ _ _ _ ⟨_,⟨reply,rfl,_⟩,_⟩ rfl
  exact ⟨reply,List.append_nil _⟩

theorem committing_ends (r : Receipt) :
    Tells ((Phase.committing r).drive m limit answer : Recorded σ _)
      ((Phase.committing r).drive m limit answer) (Ends []) := by
  rw [Phase.drive_awaitBefore rfl,Phase.drive_awaitBefore rfl]
  refine (finish_tells .commit).map.bind
    (Q := fun row more outcome => more = [] ∧ ∀ e, outcome = .error e →
      ∃ cause, row = .error cause ∧ e = .store .commit cause) (fun row => ?_) ?_
  · match row with
    | .ok () => exact ended_tells ⟨rfl,nofun⟩
    | .error cause =>
      refine ended_tells ⟨rfl,?_⟩
      rintro _ failed
      cases failed
      exact ⟨cause,rfl,rfl⟩
  · rintro _ _ _ outcome ⟨_,⟨reply,rfl,rfl⟩,rfl⟩ ⟨rfl,fails⟩
    refine ⟨[],.commit,reply,List.append_nil _,.complete,?_⟩
    intro _ settles e failed
    obtain ⟨cause,refused,rfl⟩ := fails e failed
    cases reply with
    | ok _ => cases refused
    | error told =>
      cases refused
      exact Bool.eq_false_iff.mpr fun retryable =>
        settles told rfl (DriverError.conflict_of_retryable retryable)

def Onward (due : List Statement) (more : List Exchange) (outcome : Outcome) :
    Except StoreError α → Prop
  | .ok _ => Ends due more outcome
  | .error _ => ∃ reply, more = ending .rollback reply

theorem inside_ends {call : Call} {s : Statement} {due : List Statement} {step : TransferStep}
    {onward : call.Row → Phase} (asks : Asks (σ := σ) call s)
    (here : p.next m limit = .awaitBefore call (Phase.proceed limit step onward))
    (rest : ∀ row, Tells ((onward row).drive m limit answer : Recorded σ _)
      ((onward row).drive m limit answer) (Ends due)) :
    Tells (p.drive m limit answer : Recorded σ _) (p.drive m limit answer) (Ends (s :: due)) := by
  rw [Phase.drive_awaitBefore here,Phase.drive_awaitBefore here]
  refine asks.bind (Q := fun row more outcome => Onward due more outcome row) (fun row => ?_) ?_
  · cases row with
    | ok row => exact rest row
    | error e => exact rollingBack_tells _
  · rintro _ row more outcome ⟨reply,rfl,accepted⟩ ends
    cases row with
    | ok row =>
      obtain ⟨body,last,answered,rfl,sequel,final⟩ := ends
      exact ⟨(s,reply) :: body,last,answered,rfl,.taken (accepted.mpr ⟨row,rfl⟩) sequel,final⟩
    | error e =>
      obtain ⟨answered,rfl⟩ := ends
      have refusal : ¬Accepted (s,reply) := fun accepts => by
        obtain ⟨_,brought⟩ := accepted.mp accepts
        cases brought
      exact ⟨[(s,reply)],.rollback,answered,rfl,.refused refusal,nofun⟩

theorem steps_eq (m : Movement) :
    steps m = [.insertTransfer m.source m.destination m.amount,
      .insertEntry m.source (-m.amount),.insertEntry m.destination m.amount,
      .addToBalance m.updates.1.account m.updates.1.delta,
      .addToBalance m.updates.2.account m.updates.2.delta] := by
  unfold steps Movement.updates Movement.lockOrder
  split <;> rfl

theorem recording_ends :
    Tells (Phase.recording.drive m limit answer : Recorded σ _)
      (Phase.recording.drive m limit answer) (Ends (steps m)) := by
  rw [steps_eq]
  refine inside_ends (insertTransfer_asks _ _ _) rfl fun transfer => ?_
  refine inside_ends (insertEntry_asks _ _) rfl fun debit => ?_
  refine inside_ends (insertEntry_asks _ _) rfl fun credit => ?_
  refine inside_ends (addToBalance_asks _ _) rfl fun first => ?_
  exact inside_ends (addToBalance_asks _ _) rfl fun second => committing_ends _

theorem transferOnce_converses (limit : Duration) (m : Movement) :
    Tells (transferOnce limit m : Recorded σ _) (transferOnce limit m) (Converses m) := by
  unfold transferOnce Phase.start
  split
  · rw [Phase.drive_await rfl,Phase.drive_await rfl]
    refine (send_tells .begin).map.map.bind
      (Q := fun row more outcome => match row with
        | .ok _ => Ends (steps m) more outcome
        | .error _ => more = []) (fun row => ?_) ?_
    · cases row with
      | ok _ => exact recording_ends
      | error e => exact ended_tells rfl
    · rintro _ row more outcome ⟨_,⟨reply,rfl,rfl⟩,rfl⟩ ends
      cases reply with
      | error cause =>
        cases ends
        refine ⟨[.unopened cause],rfl,by simp [Round.Lawful],List.pairwise_singleton _ _,?_⟩
        simp [Round.Settles]
      | ok result =>
        obtain ⟨body,last,answered,rfl,sequel,final⟩ := ends
        refine ⟨[.opened result body last answered],by simp [Round.exchanges],?_,
          List.pairwise_singleton _ _,?_⟩
        · simpa [Round.Lawful] using sequel.lawful
        · intro e failed retryable round member settles
          obtain rfl := List.mem_singleton.mp member
          rcases sequel.lawful.2.2 with ⟨rfl,_⟩ | ⟨rfl,_⟩
          · exact absurd (final rfl settles e failed) (by simp [retryable])
          · exact settles
  · exact ended_tells ⟨[],rfl,by simp,.nil,by simp⟩

theorem resolve_checks (id : AccountId) :
    Checks (σ := σ) (TransferRequest.resolve Accounts.get id)
      (TransferRequest.resolve Accounts.get id) := by
  have looked :
      Checks (σ := σ) (ExceptT.lift (Accounts.get id)) (ExceptT.lift (Accounts.get id)) := by
    refine (fetchOptional_tells decodeAccount (.selectAccount id)).map.map.weaken ?_
    rintro _ _ ⟨_,⟨_,⟨reply,rfl,_⟩,_⟩,_⟩
    simp [Looks]
  refine looked.bind fun found => ?_
  match found with
  | .error _ => exact .of_throw _
  | .ok none => exact .of_throw _
  | .ok (some _) => exact .of_pure _

theorem validate_checks (r : TransferRequest) :
    Checks (σ := σ) (r.validate Accounts.get) (r.validate Accounts.get) := by
  refine (Checks.of_except _).bind fun _ => (resolve_checks _).bind fun _ => ?_
  refine (Checks.of_except _).bind fun _ => (resolve_checks _).bind fun _ => ?_
  exact (Checks.of_except _).bind fun _ => .of_pure _

-- A request on any server: whatever that replies, what is sent is lookups and then lawful rounds.
theorem transfer_keeps_protocol (policy : RetryPolicy) (limit : Duration) (r : TransferRequest)
    (v : σ) :
    let plain : StateM σ Outcome := Accounts.transfer policy limit r
    let recorded : Recorded σ Outcome := Accounts.transfer policy limit r
    -- nothing becomes of the request or the server that does not when nothing is written down
    recorded [] v = (((plain v).1,transcript recorded v),(plain v).2) ∧
    ∃ (lookups : List Exchange) (rounds : List Round),
      transcript recorded v = lookups ++ rounds.flatMap Round.exchanges ∧
      -- before the first round nothing but accounts are looked up
      (∀ exchange ∈ lookups, ∃ id reply, exchange = .sent (.selectAccount id) reply) ∧
      (∀ round ∈ rounds, round.Lawful r.toMovement) ∧
      -- a COMMIT that has settled, or may have, is in the last round
      rounds.Pairwise fun earlier _ => ¬earlier.Settles := by
  have tells : Tells (Accounts.transfer policy limit r : Recorded σ _)
      (Accounts.transfer policy limit r) fun said outcome =>
        ∃ lookups more, said = lookups ++ more ∧ Looks lookups ∧
          Converses r.toMovement more outcome := by
    refine Tells.bind (Q := fun _ => Converses r.toMovement) (validate_checks r)
      (fun checked => ?_) fun lookups _ more outcome looks converses =>
        ⟨lookups,more,rfl,looks,converses⟩
    cases checked with
    | error e => exact .of_pure ⟨[],rfl,by simp,.nil,by simp⟩
    | ok _ => exact runFrom_converses (transferOnce_converses _ _) policy 0
  obtain ⟨ran,lookups,_,said,looks,rounds,rfl,lawful,unsettled,_⟩ := tells.transcript v
  exact ⟨ran,lookups,rounds,said,looks,lawful,unsettled⟩

end Requests
end Sql
end DoubleEntry
