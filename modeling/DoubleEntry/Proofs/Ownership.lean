import DoubleEntry.Proofs.Arguments
import DoubleEntry.Proofs.Protocol
import DoubleEntry.Proofs.Validations

namespace DoubleEntry

open Sql

namespace CommandLine

theorem option?_eq_some {name owner : String} {args : List String}
    (found : option? name args = some owner) :
    ∃ before after, args = before ++ name :: owner :: after ∧ name ∉ before := by
  induction args with
  | nil => cases found
  | cons word rest ih =>
    by_cases same : word = name
    · cases rest with
      | nil => cases found
      | cons next rest =>
        rw [option?,if_pos same] at found
        cases found
        exact ⟨[],rest,by rw [same]; rfl,List.not_mem_nil⟩
    · rw [option?_cons_of_ne same] at found
      obtain ⟨before,after,rfl,fresh⟩ := ih found
      refine ⟨word :: before,after,rfl,?_⟩
      simpa using ⟨Ne.symm same,fresh⟩

-- A name that occurs and has no argument is the last word of all.
theorem option?_eq_none {name : String} {args : List String} (mentioned : name ∈ args)
    (nothing : option? name args = none) :
    ∃ before, args = before ++ [name] ∧ name ∉ before := by
  induction args with
  | nil => cases mentioned
  | cons word rest ih =>
    by_cases same : word = name
    · cases rest with
      | nil => exact ⟨[],by rw [same]; rfl,List.not_mem_nil⟩
      | cons next rest =>
        rw [option?,if_pos same] at nothing
        cases nothing
    · rw [option?_cons_of_ne same] at nothing
      have later := (List.mem_cons.mp mentioned).resolve_left (Ne.symm same)
      obtain ⟨before,rfl,fresh⟩ := ih later nothing
      refine ⟨word :: before,rfl,?_⟩
      simpa using ⟨Ne.symm same,fresh⟩

theorem owner_of_read {args : List String} {r : TransferRequest}
    (read : Command.read args = .ok (.transfer r)) : r.owner = option? "--owner" args := by
  unfold Command.read at read
  split at read
  · cases read
  split at read
  · obtain ⟨_,_,read⟩ := TransferRequest.bind_eq_ok.mp read
    obtain ⟨_,_,read⟩ := TransferRequest.bind_eq_ok.mp read
    cases read
  split at read
  · obtain ⟨_,_,read⟩ := TransferRequest.bind_eq_ok.mp read
    cases read
  split at read
  · cases read
  · obtain ⟨_,_,read⟩ := TransferRequest.bind_eq_ok.mp read
    obtain ⟨_,_,read⟩ := TransferRequest.bind_eq_ok.mp read
    obtain ⟨_,_,read⟩ := TransferRequest.bind_eq_ok.mp read
    cases read
    rfl

end CommandLine

namespace Sql

variable {σ α β ε : Type}

def Assures (recorded : ExceptT ε (Recorded σ) α) (plain : ExceptT ε (StateM σ) α)
    (P : List Exchange → α → Prop) : Prop :=
  Tells recorded.run plain.run fun said x => ∀ a, x = .ok a → P said a

namespace Assures
variable {recorded : ExceptT ε (Recorded σ) α} {plain : ExceptT ε (StateM σ) α}
  {P : List Exchange → α → Prop}

theorem of_pure {a : α} (silent : P [] a) : Assures (pure a) (pure a : ExceptT ε (StateM σ) α) P :=
  Tells.of_pure fun _ same => Except.ok.inj same ▸ silent

theorem of_throw (e : ε) : Assures (throw e) (throw e : ExceptT ε (StateM σ) α) P :=
  Tells.of_pure nofun

theorem bind {onward : α → ExceptT ε (Recorded σ) β} {onward' : α → ExceptT ε (StateM σ) β}
    {Q : α → List Exchange → β → Prop} {R : List Exchange → β → Prop}
    (first : Assures recorded plain P) (second : ∀ a, Assures (onward a) (onward' a) (Q a))
    (joined : ∀ said a more b, P said a → Q a more b → R (said ++ more) b) :
    Assures (recorded >>= onward) (plain >>= onward') R := by
  unfold Assures
  rw [ExceptT.run_bind,ExceptT.run_bind]
  refine Tells.bind (Q := fun x more y => ∀ b, y = .ok b → ∃ a, x = .ok a ∧ Q a more b) first
    (fun x => ?_) ?_
  · cases x with
    | ok a => exact (second a).weaken fun _ _ assured b same => ⟨a,rfl,assured b same⟩
    | error e => exact .of_pure nofun
  · intro said x more y holds onward b same
    obtain ⟨a,rfl,after⟩ := onward b same
    exact joined said a more b (holds a rfl) after

end Assures

theorem Tells.and {recorded : Recorded σ α} {plain : StateM σ α} {P Q : List Exchange → α → Prop}
    (one : Tells recorded plain P) (two : Tells recorded plain Q) :
    Tells recorded plain fun said a => P said a ∧ Q said a := by
  intro log v
  obtain ⟨said,ran,holds⟩ := one log v
  obtain ⟨said',ran',holds'⟩ := two log v
  have same : said = said' := by
    rw [ran] at ran'
    exact List.append_cancel_left (congrArg (fun out => out.1.2) ran')
  exact ⟨said,ran,holds,same ▸ holds'⟩

theorem Tells.transcript_bind {recorded : Recorded σ α} {plain : StateM σ α}
    {onward : α → Recorded σ β} {onward' : α → StateM σ β} {P : List Exchange → α → Prop}
    {Q : α → List Exchange → β → Prop} (first : Tells recorded plain P)
    (second : ∀ a, Tells (onward a) (onward' a) (Q a)) (v : σ) :
    ∃ more, Sql.transcript (recorded >>= onward) v = Sql.transcript recorded v ++ more ∧
      ∃ b, Q (plain v).1 more b := by
  obtain ⟨ran,_⟩ := first.transcript v
  obtain ⟨more,went,also⟩ := second (plain v).1 (Sql.transcript recorded v) (plain v).2
  refine ⟨more,?_,_,also⟩
  change (match recorded [] v with | ((a,said),v) => onward a said v).1.2 = _
  rw [ran]
  exact congrArg (fun out => out.1.2) went

def Plays (recorded : Recorded σ α) (plain : StateM σ α) : Prop :=
  Tells recorded plain fun _ _ => True

theorem Plays.of_pure (a : α) : Plays (σ := σ) (pure a) (pure a) := Tells.of_pure trivial

theorem Plays.bind {recorded : Recorded σ α} {plain : StateM σ α} {onward : α → Recorded σ β}
    {onward' : α → StateM σ β} (first : Plays recorded plain)
    (second : ∀ a, Plays (onward a) (onward' a)) : Plays (recorded >>= onward) (plain >>= onward') :=
  Tells.bind first second fun _ _ _ _ _ _ => trivial

theorem plays_lift (plain : StateM σ α) : Plays (StateT.lift plain) plain :=
  fun _ _ => ⟨[],by rw [List.append_nil]; rfl,trivial⟩

theorem liftExcept_assures (x : Except TransferError α) :
    Assures (σ := σ) (liftExcept x : ExceptT TransferError _ α) (liftExcept x)
      fun said a => said = [] ∧ x = .ok a := by
  cases x with
  | error e => exact .of_throw e
  | ok a => exact .of_pure ⟨rfl,rfl⟩

section Requests
variable [server : Connection (StateM σ)]

theorem fetchAll_tells (decode : Columns → Decoded α) (statement : Statement) :
    Tells (fetchAll decode statement : Recorded σ _) (fetchAll decode statement)
      fun said _ => ∃ reply, said = [.sent statement reply] := by
  refine (send_tells statement).bind (Q := fun _ more _ => more = []) (fun reply => ?_) ?_
  · cases reply with
    | error _ => exact .of_pure rfl
    | ok _ => exact .of_pure rfl
  · rintro _ reply _ _ rfl rfl
    exact ⟨reply,rfl⟩

def Vouched (r : TransferRequest) (said : List Exchange) : Prop :=
  ∃ reply account, .sent (.selectAccount r.source) reply ∈ said ∧
    fetched decodeAccount reply = .ok (some account) ∧ r.Permits account

theorem resolve_assures (id : AccountId) :
    Assures (σ := σ) (TransferRequest.resolve Accounts.get id)
      (TransferRequest.resolve Accounts.get id) fun said account =>
        ∃ reply, said = [.sent (.selectAccount id) reply] ∧
          fetched decodeAccount reply = .ok (some account) := by
  have looked : Assures (σ := σ) (ExceptT.lift (Accounts.get id) : ExceptT TransferError _ _)
      (ExceptT.lift (Accounts.get id)) fun said found =>
        ∃ reply, said = [.sent (.selectAccount id) reply] ∧
          found = asStoreError (fetched decodeAccount reply) := by
    refine (fetchOptional_tells decodeAccount (.selectAccount id)).map.map.weaken ?_
    rintro _ _ ⟨_,⟨_,⟨reply,rfl,rfl⟩,rfl⟩,rfl⟩ found same
    cases same
    exact ⟨reply,rfl,rfl⟩
  refine looked.bind (Q := fun found more account => more = [] ∧ found = .ok (some account))
    (fun found => ?_) ?_
  · match found with
    | .error _ => exact .of_throw _
    | .ok none => exact .of_throw _
    | .ok (some _) => exact .of_pure ⟨rfl,rfl⟩
  · rintro _ _ _ account ⟨reply,rfl,rfl⟩ ⟨rfl,found⟩
    exact ⟨reply,rfl,asStoreError_eq_ok.mp found⟩

theorem validate_assures (r : TransferRequest) :
    Assures (σ := σ) (r.validate Accounts.get) (r.validate Accounts.get)
      fun said _ => Vouched r said := by
  refine (liftExcept_assures _).bind (Q := fun _ said _ => Vouched r said) (fun _ => ?_) ?_
  · refine (resolve_assures r.source).bind (Q := fun account _ _ => r.Permits account)
      (fun account => ?_) ?_
    · refine (liftExcept_assures _).bind (Q := fun _ _ _ => True) (fun _ => ?_) ?_
      · have checked : Checks (σ := σ) _ _ := (resolve_checks r.destination).bind fun b =>
          (Checks.of_except (TransferRequest.checkCurrencies account b)).bind fun _ =>
            .of_pure (account,b)
        exact checked.weaken fun _ _ _ _ _ => trivial
      · rintro _ _ _ _ ⟨_,own⟩ _
        exact TransferRequest.checkOwner_eq_ok.mp own
    · rintro _ account more _ ⟨reply,rfl,found⟩ permits
      exact ⟨reply,account,List.mem_append_left _ List.mem_cons_self,found,permits⟩
  · rintro _ _ _ _ ⟨rfl,_⟩ vouched
    exact vouched

theorem Vouched.append {r : TransferRequest} {said : List Exchange} (vouched : Vouched r said)
    (more : List Exchange) : Vouched r (said ++ more) := by
  obtain ⟨reply,account,read,found⟩ := vouched
  exact ⟨reply,account,List.mem_append_left _ read,found⟩

-- Whatever is begun is begun after exchanges of this kind.
def Guarded (before : List Exchange → Prop) (said : List Exchange) : Prop :=
  ∀ early answer late, said = early ++ .sent .begin answer :: late → before early

theorem Guarded.of_quiet {before : List Exchange → Prop} {said : List Exchange}
    (quiet : ∀ answer, .sent .begin answer ∉ said) : Guarded before said := by
  intro early answer late whole
  exact (quiet answer (whole ▸ by simp)).elim

theorem Guarded.append {before : List Exchange → Prop} {said more : List Exchange}
    (quiet : ∀ answer, .sent .begin answer ∉ said)
    (onward : Guarded (fun early => before (said ++ early)) more) :
    Guarded before (said ++ more) := by
  intro early answer late whole
  rcases List.append_eq_append_iff.mp whole with ⟨between,rfl,rest⟩ | ⟨between,rfl,rest⟩
  · exact onward between answer late rest
  · cases between with
    | nil => simpa using onward [] answer late rest.symm
    | cons first _ =>
      cases rest
      exact (quiet answer (by simp)).elim

theorem Looks.quiet {said : List Exchange} (looks : Looks said) (answer : Received) :
    .sent .begin answer ∉ said := by
  intro member
  obtain ⟨_,_,is⟩ := looks _ member
  cases is

theorem transfer_guarded (policy : RetryPolicy) (limit : Duration) (r : TransferRequest) :
    Tells (Accounts.transfer policy limit r : Recorded σ _) (Accounts.transfer policy limit r)
      fun said _ => Guarded (Vouched r) said := by
  refine Tells.bind (Q := fun checked more _ => (∃ a, checked = .ok a) ∨ more = [])
    ((validate_checks r).and (validate_assures r)) (fun checked => ?_) ?_
  · cases checked with
    | error e => exact .of_pure (.inr rfl)
    | ok a =>
      exact (runFrom_converses (transferOnce_converses limit r.toMovement) policy 0).weaken
        fun _ _ _ => .inl ⟨a,rfl⟩
  · rintro said checked more _ ⟨looks,vouches⟩ ends
    refine Guarded.append looks.quiet ?_
    rcases ends with ⟨a,rfl⟩ | rfl
    · exact fun early _ _ _ => (vouches a rfl).append early
    · exact .of_quiet (by simp)

theorem plays_send (s : Statement) : Plays (σ := σ) (Connection.send s) (Connection.send s) :=
  (send_tells s).weaken fun _ _ _ => trivial

variable [books : Bookkeeping (StateM σ)]

instance : Bookkeeping (Recorded σ) where
  history := StateT.lift books.history
  record version checksum := StateT.lift (books.record version checksum)

theorem plays_applyMigration (g : Migration) :
    Plays (σ := σ) (applyMigration g) (applyMigration g) := by
  refine (plays_send .begin).bind fun began => ?_
  cases began with
  | error _ => exact .of_pure _
  | ok _ =>
    refine (plays_send (.script g.script)).bind fun ran => ?_
    cases ran with
    | error _ =>
      exact Plays.bind (abandon_tells.weaken fun _ _ _ => trivial) fun _ => .of_pure _
    | ok _ =>
      refine Plays.bind ((finish_tells .commit).weaken fun _ _ _ => trivial) fun ended => ?_
      cases ended with
      | error _ => exact .of_pure _
      | ok _ => exact (plays_lift _).bind fun _ => .of_pure _

theorem plays_applyAll (known : List (Int × List UInt8)) (due : List Migration) :
    Plays (σ := σ) (applyAll known due) (applyAll known due) := by
  induction due with
  | nil => exact .of_pure _
  | cons g rest ih =>
    unfold applyAll
    cases known.lookup g.version with
    | some checksum =>
      dsimp only
      split
      · exact ih
      · exact .of_pure _
    | none =>
      refine (plays_applyMigration g).bind fun applied => ?_
      cases applied with
      | error _ => exact .of_pure _
      | ok _ => exact ih

theorem plays_migrate : Plays (σ := σ) migrate migrate := by
  refine (plays_lift books.history).bind fun h => ?_
  cases h.dirty with
  | cons v _ => exact .of_pure _
  | nil =>
    dsimp only
    split
    · exact .of_pure _
    · exact plays_applyAll _ _

end Requests
end Sql

namespace CommandLine
open Sql

section Failing
variable {m : Type → Type} [Monad m] [LawfulMonad m] {σ α β ε : Type}

theorem run_orFail (wrap : ε → Failure) (work : m (Except ε α)) :
    (orFail wrap work).run = (do return (← work).mapError wrap) := by
  rw [orFail,ExceptT.run_bind]
  show ExceptT.run (ExceptT.lift work) >>= _ = _
  rw [ExceptT.run_lift,bind_map_left]
  refine bind_congr fun x => ?_
  cases x <;> rfl

theorem run_orFail_map (wrap : ε → Failure) (work : m (Except ε α)) (f : α → β) :
    (do return f (← orFail wrap work) : ExceptT Failure m β).run =
      (do return ((← work).mapError wrap).map f) := by
  rw [ExceptT.run_bind,run_orFail,bind_assoc]
  refine bind_congr fun x => ?_
  rw [pure_bind]
  cases x <;> rfl

theorem orFail_map_tells (wrap : ε → Failure) (f : α → β) {recorded : Recorded σ (Except ε α)}
    {plain : StateM σ (Except ε α)} {P : List Exchange → Prop}
    (tells : Tells recorded plain fun said _ => P said) :
    Tells (do return f (← orFail wrap recorded) : ExceptT Failure (Recorded σ) β).run
      (do return f (← orFail wrap plain) : ExceptT Failure (StateM σ) β).run
      fun said _ => P said := by
  rw [run_orFail_map,run_orFail_map]
  refine Tells.weaken (Tells.map tells) ?_
  rintro said _ ⟨_,holds,_⟩
  exact holds

theorem plays_orFail (wrap : ε → Failure) {recorded : Recorded σ (Except ε α)}
    {plain : StateM σ (Except ε α)} (plays : Plays recorded plain) :
    Plays (orFail wrap recorded).run (orFail wrap plain).run := by
  rw [run_orFail,run_orFail]
  exact plays.bind fun _ => .of_pure _

theorem plays_run_bind {recorded : ExceptT ε (Recorded σ) α} {plain : ExceptT ε (StateM σ) α}
    {onward : α → ExceptT ε (Recorded σ) β} {onward' : α → ExceptT ε (StateM σ) β}
    (first : Plays recorded.run plain.run) (second : ∀ a, Plays (onward a).run (onward' a).run) :
    Plays (recorded >>= onward).run (plain >>= onward').run := by
  rw [ExceptT.run_bind,ExceptT.run_bind]
  refine first.bind fun x => ?_
  cases x with
  | ok a => exact second a
  | error e => exact .of_pure _

theorem transcript_run_bind {recorded : ExceptT ε (Recorded σ) α} {plain : ExceptT ε (StateM σ) α}
    {onward : α → ExceptT ε (Recorded σ) β} {onward' : α → ExceptT ε (StateM σ) β}
    {P : List Exchange → Prop} (first : Plays recorded.run plain.run) (silent : P [])
    (second : ∀ a, Tells (onward a).run (onward' a).run fun said _ => P said) (v : σ) :
    (recorded >>= onward).run [] v =
        ((((plain >>= onward').run v).1,transcript (recorded >>= onward).run v),
          ((plain >>= onward').run v).2) ∧
      ∃ more, transcript (recorded >>= onward).run v = transcript recorded.run v ++ more ∧
        P more := by
  have rest : ∀ x, Tells (ExceptT.bindCont onward x : Recorded σ _) (ExceptT.bindCont onward' x)
      fun said _ => P said := by
    intro x
    cases x with
    | ok a => exact second a
    | error e => exact .of_pure silent
  obtain ⟨more,whole,_,holds⟩ := first.transcript_bind rest v
  have ran := (first.bind fun x => (rest x).weaken fun _ _ _ => trivial).transcript v
  exact ⟨ran.1,more,whole,holds⟩

end Failing

variable {σ : Type} [Connection (StateM σ)]

-- Only a transfer begins anything, and only when its source may be used.
theorem execute_guarded (config : Config) (command : Command) :
    Tells (command.execute config : ExceptT Failure (Recorded σ) _).run
      (command.execute config : ExceptT Failure (StateM σ) _).run
      fun said _ => Guarded (fun early => ∃ r, command = .transfer r ∧ Vouched r early) said := by
  cases command with
  | migrate => exact .of_pure (.of_quiet (by simp))
  | createAccount owner currency =>
    refine orFail_map_tells .accounts _ ?_
    refine (fetchOne_tells decodeAccount (.insertAccount owner currency)).map.weaken ?_
    rintro _ _ ⟨_,⟨reply,rfl,_⟩,_⟩
    exact .of_quiet (by simp)
  | listAccounts owner =>
    refine orFail_map_tells .accounts _ ?_
    refine (fetchAll_tells decodeAccount (.selectAccountsOf owner 100 0)).map.weaken ?_
    rintro _ _ ⟨_,⟨reply,rfl⟩,_⟩
    exact .of_quiet (by simp)
  | transfer r =>
    refine orFail_map_tells .transfer _ ?_
    refine (transfer_guarded _ _ r).weaken ?_
    intro said _ guarded early answer late whole
    exact ⟨r,rfl,guarded early answer late whole⟩

theorem deal_guarded (args : List String) (config : Config) :
    Tells (deal args config : ExceptT Failure (Recorded σ) _).run
      (deal args config : ExceptT Failure (StateM σ) _).run fun said _ =>
        Guarded (fun early => ∃ r, Command.read args = .ok (.transfer r) ∧ Vouched r early) said := by
  unfold deal
  cases Command.read args with
  | error e => exact .of_pure (.of_quiet (by simp))
  | ok command =>
    simp only [orFail_ok,pure_bind]
    refine (execute_guarded config command).weaken ?_
    intro said _ guarded early answer late whole
    obtain ⟨r,rfl,vouched⟩ := guarded early answer late whole
    exact ⟨r,rfl,vouched⟩

variable [Bookkeeping (StateM σ)]

theorem plays_prepare (load : String → Except ConfigError Config) (env : String) :
    Plays (prepare load env : ExceptT Failure (Recorded σ) _).run
      (prepare load env : ExceptT Failure (StateM σ) _).run := by
  refine plays_run_bind (plays_orFail _ (.of_pure _)) fun config => ?_
  refine plays_run_bind (plays_orFail _ (plays_lift _)) fun _ => ?_
  refine plays_run_bind (plays_orFail _ (plays_send .ping)) fun _ => ?_
  exact plays_run_bind (plays_orFail _ plays_migrate) fun _ => .of_pure _

-- What is sent once the database has been set up, for arguments in which an owner is named. An owner
-- that is only asked for by the last word of all is not looked for.
theorem owner_heeded (load : String → Except ConfigError Config) {args : List String}
    (mentioned : "--owner" ∈ args) (v : σ) :
    let plain : StateM σ _ := (work load args).run
    let recorded : Recorded σ _ := (work load args).run
    let opening : Recorded σ _ := (prepare load (environment args)).run
    recorded [] v = (((plain v).1,transcript recorded v),(plain v).2) ∧
    ∃ dealings, transcript recorded v = transcript opening v ++ dealings ∧
      ∀ early answer late, dealings = early ++ .sent .begin answer :: late →
        ∃ r, Command.read args = .ok (.transfer r) ∧
          ((∃ before owner after, args = before ++ "--owner" :: owner :: after ∧
              "--owner" ∉ before ∧ r.owner = some owner ∧ ∃ reply account,
                .sent (.selectAccount r.source) reply ∈ early ∧
                fetched decodeAccount reply = .ok (some account) ∧ account.owner = owner) ∨
            ∃ before, args = before ++ ["--owner"] ∧ "--owner" ∉ before ∧ r.owner = none) := by
  intro plain recorded opening
  have split : recorded = (prepare load (environment args) >>= deal args).run :=
    congrArg ExceptT.run (work_eq load args)
  have split' : plain = (prepare load (environment args) >>= deal args).run :=
    congrArg ExceptT.run (work_eq load args)
  obtain ⟨ran,dealings,whole,guarded⟩ := transcript_run_bind
    (plays_prepare (σ := σ) load (environment args)) (.of_quiet (by simp)) (deal_guarded args) v
  rw [split,split']
  refine ⟨ran,dealings,whole,?_⟩
  intro early answer late is
  obtain ⟨r,read,reply,account,looked,found,permits⟩ := guarded early answer late is
  refine ⟨r,read,?_⟩
  have owner := owner_of_read read
  cases is : option? "--owner" args with
  | none =>
    obtain ⟨before,same,fresh⟩ := option?_eq_none mentioned is
    exact .inr ⟨before,same,fresh,owner.trans is⟩
  | some name =>
    obtain ⟨before,after,same,fresh⟩ := option?_eq_some is
    exact .inl ⟨before,name,after,same,fresh,owner.trans is,reply,account,looked,found,
      permits name (owner.trans is)⟩

def obliging : Server :=
  { replies := [.result (.rows [[.int 1]]),
      .result (.rows [[.int 1,.text "alice",.text "USD",.int 100,.int 0]]),
      .result (.rows [[.int 2,.text "bob",.text "USD",.int 0,.int 0]]),
      .result (.rows [[.int 1,.int 1,.int 2,.int 30,.int 0]]),
      .result (.rows [[.int 1,.int 1,.int (-30),.int 0]]),
      .result (.rows [[.int 2,.int 2,.int 30,.int 0]]),
      .result (.rows [[.int 1,.text "alice",.text "USD",.int 70,.int 0]]),
      .result (.rows [[.int 2,.text "bob",.text "USD",.int 30,.int 0]])] }

def begins : Exchange → Bool
  | .sent statement _ => statement = .begin
  | .abandoned => false

theorem eq_of_begins {exchange : Exchange} (is : begins exchange = true) :
    ∃ answer, exchange = .sent .begin answer := by
  cases exchange with
  | sent statement answer => exact ⟨answer,by rw [of_decide_eq_true is]⟩
  | abandoned => cases is

def asking : List String := ["--from","1","--to","2","--amount","30","--owner","alice"]

theorem owner_heeded_named :
    let recorded : Recorded Server _ := (work (fun _ => .ok settings) asking).run
    ∃ early answer late reply account,
      transcript recorded obliging = early ++ .sent .begin answer :: late ∧
        .sent (.selectAccount 1) reply ∈ early ∧
        fetched decodeAccount reply = .ok (some account) ∧ account.owner = "alice" := by
  intro recorded
  obtain ⟨-,dealings,whole,heeded⟩ := owner_heeded (fun _ => .ok settings)
    (show "--owner" ∈ asking by simp [asking]) obliging
  -- the four statements of the set-up are one query and one migration
  have opening : (transcript (prepare (fun _ => .ok settings) (environment asking) :
      ExceptT Failure (Recorded Server) _).run obliging).length = 4 := by decide +kernel
  have begun : ((transcript recorded obliging).drop 4).any begins = true := by decide +kernel
  rw [whole,List.drop_left' opening,List.any_eq_true] at begun
  obtain ⟨exchange,member,is⟩ := begun
  obtain ⟨answer,rfl⟩ := eq_of_begins is
  obtain ⟨early,late,rfl⟩ := List.append_of_mem member
  obtain ⟨r,read,known⟩ := heeded early answer late rfl
  have asked : Command.read asking = .ok (.transfer ⟨⟨1,2,30⟩,some "alice"⟩) := rfl
  cases Except.ok.inj (asked.symm.trans read)
  rcases known with ⟨_,_,_,_,_,same,reply,account,looked,found,own⟩ | ⟨_,_,_,nothing⟩
  · cases same
    rw [← List.append_assoc] at whole
    exact ⟨_,answer,late,reply,account,whole,List.mem_append_right _ looked,found,own⟩
  · cases nothing

-- Nobody is named, and the money is moved behind the statements of the set-up.
theorem owner_dropped :
    let args := ["--from","1","--to","2","--amount","30","--owner"]
    let run := (work (fun _ => .ok settings) args : ExceptT Failure Session _).run obliging
    "--owner" ∈ args ∧ Command.read args = .ok (.transfer ⟨⟨1,2,30⟩,none⟩) ∧
      run.2.sent.drop 4 = [.selectAccount 1,.selectAccount 2,.begin,.insertTransfer 1 2 30,
        .insertEntry 1 (-30),.insertEntry 2 30,.addToBalance 1 (-30),.addToBalance 2 30,.commit] :=
  ⟨by simp,rfl,by decide +kernel⟩

end CommandLine
end DoubleEntry
