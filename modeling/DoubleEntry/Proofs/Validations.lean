import DoubleEntry.Proofs.Bank
import DoubleEntry.Proofs.Histories
import DoubleEntry.Scenario.Command

namespace DoubleEntry

abbrev Found := Except StoreError (Option Account)

-- What each lookup finds, by its number and by the account that is looked up.
abbrev Directory := Nat → AccountId → Found

def Directory.lookup (d : Directory) : AccountLookup (StateM (List AccountId)) :=
  fun id asked => (d asked.length id,asked ++ [id])

def Directory.judge (d : Directory) (r : TransferRequest) :
    Except TransferError (Account × Account) × List AccountId :=
  (r.validate d.lookup).run.run []

def Ledger.directory (l : Ledger) (failure : Option LookupFailure) : Directory :=
  fun n id => (l.lookup failure id n).1

namespace Found

def unreadable : Found → Option TransferError
  | .error e => some (.lookup e)
  | .ok _ => none

def missing (id : AccountId) : Found → Option TransferError
  | .ok none => some (.accountNotFound id)
  | _ => none

def unlike : Found → Found → Option TransferError
  | .ok (some a),.ok (some b) =>
    if a.currency = b.currency then none else some (.currencyMismatch a.currency b.currency)
  | _,_ => none

end Found

namespace TransferRequest

-- Whoever asks, if anybody in particular does, is the owner of the account.
def Permits (r : TransferRequest) (a : Account) : Prop :=
  ∀ owner, r.owner = some owner → a.owner = owner

def Approves (r : TransferRequest) (source : Found) :
    Prop := ∃ a, source = .ok (some a) ∧ r.Permits a

def disowned (r : TransferRequest) : Found → Option TransferError
  | .ok (some a) =>
    r.owner.bind fun owner => if a.owner = owner then none else some (.notOwner a.id owner)
  | _ => none

-- All that can be objected to a request, in the order in which it is.
def objections (r : TransferRequest) (source destination : Found) : List (Option TransferError) :=
  [if r.source = r.destination then some (.sameAccount r.source) else none,
    if r.amount ≤ 0 then some (.invalidAmount r.amount) else none,
    source.unreadable,source.missing r.source,r.disowned source,
    destination.unreadable,destination.missing r.destination,source.unlike destination]

def found (id : AccountId) : Found → Except TransferError Account
  | .error e => .error (.lookup e)
  | .ok none => .error (.accountNotFound id)
  | .ok (some a) => .ok a

-- The source is taken if it was found and may be used,
def approve (r : TransferRequest) (source : Found) : Except TransferError Account := do
  let a ← found r.source source
  r.checkOwner a
  return a

-- and only then is the destination considered.
def conclude (r : TransferRequest) (a : Account) (destination : Found) :
    Except TransferError (Account × Account) := do
  let b ← found r.destination destination
  checkCurrencies a b
  return (a,b)

def verdict (r : TransferRequest) (source destination : Found) :
    Except TransferError (Account × Account) := do
  r.check
  let a ← r.approve source
  r.conclude a destination

section Verdicts
variable {r : TransferRequest} {source destination : Found} {a b : Account}

theorem checkOwner_eq_ok : r.checkOwner a = .ok () ↔ r.Permits a := by
  unfold checkOwner Permits
  cases asked : r.owner with
  | none => simp
  | some owner => by_cases own : a.owner = owner <;> simp [own]

theorem checkCurrencies_eq_ok : checkCurrencies a b = .ok () ↔ a.currency = b.currency := by
  unfold checkCurrencies
  by_cases alike : a.currency = b.currency <;> simp [alike]

theorem found_eq_ok {id : AccountId} : found id source = .ok a ↔ source = .ok (some a) := by
  rcases source with e | _ | a' <;> simp [found]

theorem bind_eq_ok {ε : Type} {x : Except ε α} {f : α → Except ε β} {y : β} :
    x >>= f = .ok y ↔ ∃ a, x = .ok a ∧ f a = .ok y := by
  cases x with
  | error e => exact ⟨nofun,fun ⟨_,is,_⟩ => nomatch is⟩
  | ok a => exact ⟨fun is => ⟨a,rfl,is⟩,fun ⟨_,rfl,is⟩ => is⟩

theorem ok_bind (a : α) (f : α → Except TransferError β) : Except.ok a >>= f = f a := rfl

theorem approve_eq_ok : r.approve source = .ok a ↔ source = .ok (some a) ∧ r.Permits a := by
  constructor
  · intro approved
    obtain ⟨_,is,approved⟩ := bind_eq_ok.mp approved
    obtain ⟨⟨⟩,permitted,same⟩ := bind_eq_ok.mp approved
    cases same
    exact ⟨found_eq_ok.mp is,checkOwner_eq_ok.mp permitted⟩
  · rintro ⟨is,permitted⟩
    exact bind_eq_ok.mpr
      ⟨a,found_eq_ok.mpr is,bind_eq_ok.mpr ⟨(),checkOwner_eq_ok.mpr permitted,rfl⟩⟩

theorem conclude_eq_ok {accounts : Account × Account} :
    r.conclude a destination = .ok accounts ↔
      ∃ b, accounts = (a,b) ∧ destination = .ok (some b) ∧ a.currency = b.currency := by
  constructor
  · intro concluded
    obtain ⟨b,is,concluded⟩ := bind_eq_ok.mp concluded
    obtain ⟨⟨⟩,alike,same⟩ := bind_eq_ok.mp concluded
    cases same
    exact ⟨b,rfl,found_eq_ok.mp is,checkCurrencies_eq_ok.mp alike⟩
  · rintro ⟨b,rfl,is,alike⟩
    exact bind_eq_ok.mpr
      ⟨b,found_eq_ok.mpr is,bind_eq_ok.mpr ⟨(),checkCurrencies_eq_ok.mpr alike,rfl⟩⟩

theorem verdict_eq_ok :
    r.verdict source destination = .ok (a,b) ↔ r.source ≠ r.destination ∧ 0 < r.amount ∧
      source = .ok (some a) ∧ r.Permits a ∧ destination = .ok (some b) ∧
        a.currency = b.currency := by
  constructor
  · intro valid
    obtain ⟨⟨⟩,checked,valid⟩ := bind_eq_ok.mp valid
    obtain ⟨a',approved,concluded⟩ := bind_eq_ok.mp valid
    obtain ⟨b',same,found',alike⟩ := conclude_eq_ok.mp concluded
    cases same
    obtain ⟨different,positive⟩ := Movement.check_eq_ok.mp checked
    obtain ⟨found,permitted⟩ := approve_eq_ok.mp approved
    exact ⟨different,positive,found,permitted,found',alike⟩
  · rintro ⟨different,positive,found,permitted,found',alike⟩
    exact bind_eq_ok.mpr ⟨(),Movement.check_eq_ok.mpr ⟨different,positive⟩,
      bind_eq_ok.mpr ⟨a,approve_eq_ok.mpr ⟨found,permitted⟩,
        conclude_eq_ok.mpr ⟨b,rfl,found',alike⟩⟩⟩

end Verdicts

-- The objections decide: the first that holds is the error, and without any there is none.
def Decides (objections : List (Option TransferError)) (x : Except TransferError α) : Prop :=
  ∀ e, x = .error e ↔ objections.findSome? id = some e

theorem Decides.bind {one two : List (Option TransferError)} {x : Except TransferError α}
    {f : α → Except TransferError β} (first : Decides one x)
    (second : ∀ a, x = .ok a → Decides two (f a)) : Decides (one ++ two) (x >>= f) := by
  intro e
  rw [List.findSome?_append]
  cases x with
  | error e' =>
    rw [(first e').mp rfl]
    simp [Bind.bind,Except.bind]
  | ok a =>
    have none : one.findSome? id = none := by
      cases is : one.findSome? id with
      | none => rfl
      | some e' => cases (first e').mpr is
    rw [none,Option.none_or]
    exact second a rfl e

theorem Decides.pure (a : α) : Decides [] (Pure.pure a) := fun _ => ⟨nofun,nofun⟩

section Verdicts
variable {r : TransferRequest} {source destination : Found} {a b : Account}

theorem decides_check :
    Decides [if r.source = r.destination then some (.sameAccount r.source) else none,
      if r.amount ≤ 0 then some (.invalidAmount r.amount) else none] r.check := by
  intro e
  unfold Movement.check
  by_cases same : r.source = r.destination
  · simp [same]
  · by_cases amount : r.amount ≤ 0 <;> simp [same,amount]

theorem decides_found (id : AccountId) :
    Decides [source.unreadable,source.missing id] (found id source) := by
  intro e
  rcases source with e' | _ | a <;> simp [found,Found.unreadable,Found.missing]

theorem decides_owner (is : source = .ok (some a)) :
    Decides [r.disowned source] (r.checkOwner a) := by
  intro e
  subst is
  unfold checkOwner disowned
  cases asked : r.owner with
  | none => simp
  | some owner => by_cases own : a.owner = owner <;> simp [own]

theorem decides_currencies (is : source = .ok (some a)) (is' : destination = .ok (some b)) :
    Decides [source.unlike destination] (checkCurrencies a b) := by
  intro e
  subst is is'
  unfold checkCurrencies Found.unlike
  by_cases alike : a.currency = b.currency <;> simp [alike]

theorem decides_approve :
    Decides [source.unreadable,source.missing r.source,r.disowned source] (r.approve source) :=
  (decides_found r.source).bind fun _ is =>
    (decides_owner (found_eq_ok.mp is)).bind fun _ _ => .pure _

theorem decides_conclude (is : source = .ok (some a)) :
    Decides [destination.unreadable,destination.missing r.destination,source.unlike destination]
      (r.conclude a destination) :=
  (decides_found r.destination).bind fun _ is' =>
    (decides_currencies is (found_eq_ok.mp is')).bind fun _ _ => .pure _

theorem decides_verdict :
    Decides (r.objections source destination) (r.verdict source destination) :=
  decides_check.bind fun _ _ => decides_approve.bind fun _ approved =>
    decides_conclude (approve_eq_ok.mp approved).1

end Verdicts

section Lookups
variable {σ : Type} (r : TransferRequest) (find : AccountLookup (StateM σ)) (s : σ)

theorem run_bind (x : ExceptT TransferError (StateM σ) α)
    (f : α → ExceptT TransferError (StateM σ) β) :
    (x >>= f).run.run s =
      match x.run.run s with
      | (.ok a,s') => (f a).run.run s'
      | (.error e,s') => (.error e,s') := by
  rw [ExceptT.run_bind,StateT.run_bind]
  rcases x.run.run s with ⟨_ | a,s'⟩ <;> rfl

theorem run_check_bind (x : Except TransferError α) (f : α → ExceptT TransferError (StateM σ) β) :
    (liftExcept x >>= f).run.run s =
      match x with
      | .ok a => (f a).run.run s
      | .error e => (.error e,s) := by
  rw [run_bind]
  cases x <;> rfl

theorem run_resolve_bind (id : AccountId) (f : Account → ExceptT TransferError (StateM σ) β) :
    (resolve find id >>= f).run.run s =
      match found id (find id s).1 with
      | .ok a => (f a).run.run (find id s).2
      | .error e => (.error e,(find id s).2) := by
  have resolved : (resolve find id).run.run s = (found id (find id s).1,(find id s).2) := by
    refine (run_bind s (liftM (find id)) _).trans ?_
    have lifted : (liftM (find id) : ExceptT TransferError (StateM σ) Found).run.run s =
        (.ok (find id s).1,(find id s).2) := rfl
    rw [lifted]
    rcases (find id s).1 with e | _ | a <;> rfl
  rw [run_bind,resolved]
  cases found id (find id s).1 <;> rfl

-- How far the lookups go: none is made once the answer is known.
def reached : σ :=
  match r.check with
  | .error _ => s
  | .ok () =>
    match r.approve (find r.source s).1 with
    | .error _ => (find r.source s).2
    | .ok _ => (find r.destination (find r.source s).2).2

theorem run_validate :
    (r.validate find).run.run s =
      (r.verdict (find r.source s).1 (find r.destination (find r.source s).2).1,
        r.reached find s) := by
  unfold validate verdict reached approve conclude
  simp only [run_check_bind,run_resolve_bind]
  -- One case for each answer: the error ends both computations at the same place.
  cases r.check with
  | error e => rfl
  | ok =>
    simp only [ok_bind]
    cases found r.source (find r.source s).1 with
    | error e => rfl
    | ok a =>
      simp only [ok_bind]
      cases r.checkOwner a with
      | error e => rfl
      | ok =>
        simp only [ok_bind,pure_bind]
        cases found r.destination (find r.destination (find r.source s).2).1 with
        | error e => rfl
        | ok b =>
          simp only [ok_bind]
          cases checkCurrencies a b <;> rfl

end Lookups

section Directories
variable {d d' : Directory} {r : TransferRequest} {a : Account}

theorem judge_eq (d : Directory) (r : TransferRequest) :
    d.judge r = (r.verdict (d 0 r.source) (d 1 r.destination),r.reached d.lookup []) :=
  run_validate r d.lookup []

theorem reached_unchecked (bad : r.source = r.destination ∨ r.amount ≤ 0) :
    r.reached d.lookup [] = [] := by
  cases checked : r.check with
  | error e => rw [reached,checked]
  | ok =>
    obtain ⟨different,positive⟩ := Movement.check_eq_ok.mp checked
    rcases bad with same | negative
    · exact absurd same different
    · exact absurd positive (Int.not_lt.mpr negative)

theorem reached_refused (different : r.source ≠ r.destination) (positive : 0 < r.amount)
    (refused : ¬r.Approves (d 0 r.source)) : r.reached d.lookup [] = [r.source] := by
  rw [reached,Movement.check_eq_ok.mpr ⟨different,positive⟩]
  cases approved : r.approve (d.lookup r.source []).1 with
  | error e => rfl
  | ok a => exact absurd ⟨a,approve_eq_ok.mp approved⟩ refused

theorem reached_approved (different : r.source ≠ r.destination) (positive : 0 < r.amount)
    (approves : r.Approves (d 0 r.source)) : r.reached d.lookup [] = [r.source,r.destination] := by
  obtain ⟨a,approved⟩ := approves
  have taken : r.approve (d.lookup r.source []).1 = .ok a := approve_eq_ok.mpr approved
  rw [reached,Movement.check_eq_ok.mpr ⟨different,positive⟩]
  simp only [taken]
  rfl

theorem judge_of_refused {e : TransferError} (refused : r.approve (d 0 r.source) = .error e) :
    d.judge r =
      match r.check with
      | .ok () => (.error e,[r.source])
      | .error e => (.error e,[]) := by
  have refused' : r.approve (d.lookup r.source []).1 = .error e := refused
  rw [judge_eq,verdict,reached]
  cases r.check with
  | error _ => rfl
  | ok =>
    simp only [ok_bind,refused,refused']
    rfl

-- Two runs that differ in the destination, and in what is found there, cannot be told apart by
-- somebody who does not own the source.
theorem judge_secretive (destination : AccountId) (found : d 0 r.source = .ok (some a))
    (foreign : ¬r.Permits a) (agree : d' 0 r.source = d 0 r.source)
    (other : destination = r.source ↔ r.destination = r.source) :
    d'.judge { r with destination := destination } = d.judge r := by
  obtain ⟨e,refused⟩ : ∃ e, r.approve (d 0 r.source) = .error e := by
    cases approved : r.approve (d 0 r.source) with
    | error e => exact ⟨e,rfl⟩
    | ok a' =>
      obtain ⟨found',permits⟩ := approve_eq_ok.mp approved
      cases found.symm.trans found'
      exact absurd permits foreign
  have checked : ({ r with destination := destination } : TransferRequest).check = r.check := by
    simp only [Movement.check,eq_comm (a := r.source),other]
  rw [judge_of_refused refused,judge_of_refused (r := { r with destination := destination })
    (agree ▸ refused),checked]

end Directories

-- The ledger counts its lookups; a directory of the same answers keeps them all.
theorem validate_eq_judge (l : Ledger) (r : TransferRequest) (failure : Option LookupFailure) :
    l.validate r failure = ((l.directory failure).judge r).1 := by
  have counted : (l.lookup failure r.source 0).2 = 1 := by cases failure <;> rfl
  rw [judge_eq,Ledger.validate,run_validate,counted]
  rfl

end TransferRequest

section Services
variable {b b' : Bank} {i : Nat} {j : Job}

theorem Bank.advance_finished (finished : j.stage = .finished outcome time)
    (found : b.jobs[i]? = some j) (advanced : b.advance move = some b') :
    b'.jobs[i]? = some j ∧ move.job? ≠ some i := by
  have elsewhere {k : Nat} {work : Job → Option (Ledger × Job)} (idle : work j = none)
      (updated : b.updateJob k work = some b') : b'.jobs[i]? = some j ∧ some k ≠ some i := by
    obtain ⟨j',l',_,found',worked,rfl⟩ := updateJob_eq_some updated
    have different : k ≠ i := by
      rintro rfl
      cases found.symm.trans found'
      cases idle.symm.trans worked
    refine ⟨(List.getElem?_set_ne different).trans found,?_⟩
    exact fun same => different (Option.some.inj same)
  cases move with
  | step k => exact elsewhere (by simp only [Job.step,finished]) advanced
  | abort k => exact elsewhere (by simp only [finished,Stage.interruptible]; rfl) advanced
  | launch =>
    cases advanced
    have bound := (List.getElem?_eq_some_iff.mp found).1
    exact ⟨(List.getElem?_append_left bound).trans found,by simp [Move.job?]⟩
  | begin =>
    simp only [advance] at advanced
    split at advanced <;>
    · cases advanced
      exact ⟨found,by simp [Move.job?]⟩
  | call | resume | cancel | drop =>
    obtain ⟨_,_,_,_,_,rfl⟩ := updateClient_eq_some advanced
    exact ⟨found,by simp [Move.job?]⟩
  | _ =>
    cases advanced
    exact ⟨found,by simp [Move.job?]⟩

theorem runs_finished {history : List Turn} (runs : Runs b history b')
    (finished : j.stage = .finished outcome time) (found : b.jobs[i]? = some j) :
    b'.jobs[i]? = some j ∧ ∀ t ∈ history, t.move.job? ≠ some i := by
  induction runs with
  | nil => exact ⟨found,List.forall_mem_nil _⟩
  | step _ advanced ih =>
    obtain ⟨found,silent⟩ := ih
    obtain ⟨found',idle⟩ := Bank.advance_finished finished found advanced
    refine ⟨found',?_⟩
    intro t member
    rcases List.mem_append.mp member with old | new
    · exact silent t old
    · cases List.mem_singleton.mp new
      exact idle

theorem serve_refused {d : Directory} {r : TransferRequest} {e : TransferError}
    (refused : (d.judge r).1 = .error e) (p : RetryPolicy)
    (submit : Movement → StateM (List AccountId) Outcome)
    (wait : Nat → StateM (List AccountId) Unit) :
    (p.serve d.lookup submit wait r).run [] = (.error e,(d.judge r).2) := by
  have judged : (r.validate d.lookup).run.run [] = (.error e,(d.judge r).2) := Prod.ext refused rfl
  rw [RetryPolicy.serve,StateT.run_bind,judged]
  rfl

theorem start_refused {l : Ledger} {plan : JobPlan} {e : TransferError} (now : Nat)
    (service : plan.retry.isSome = true)
    (refused : ((l.directory plan.lookupFailure).judge plan.request).1 = .error e) :
    Job.start now l plan =
      { plan := plan, started := now, calls := [], stage := .finished (.error e) now } := by
  obtain ⟨policy,retry⟩ := Option.isSome_iff_exists.mp service
  rw [←TransferRequest.validate_eq_judge] at refused
  simp only [Job.start,retry,refused]

end Services

def Answer.ofVerdict : Except TransferError (Account × Account) → Answer
  | .ok (source,destination) => .accounts source destination
  | .error e => .transferError e

theorem validation_decided (r : TransferRequest) :
    (∀ d : Directory,
      let source := d 0 r.source
      let destination := d 1 r.destination
      (∀ a b, (d.judge r).1 = .ok (a,b) ↔ r.source ≠ r.destination ∧ 0 < r.amount ∧
        source = .ok (some a) ∧ r.Permits a ∧ destination = .ok (some b) ∧
          a.currency = b.currency) ∧
      (∀ e, (d.judge r).1 = .error e ↔
        (r.objections source destination).findSome? id = some e) ∧
      -- No account is looked up for a request that is bad in itself,
      (r.source = r.destination ∨ r.amount ≤ 0 → (d.judge r).2 = []) ∧
      -- and the destination only for a source that was found and may be used.
      (r.source ≠ r.destination → 0 < r.amount → ¬r.Approves source → (d.judge r).2 = [r.source]) ∧
      (r.source ≠ r.destination → 0 < r.amount → r.Approves source →
        (d.judge r).2 = [r.source,r.destination])) ∧
    -- Who does not own the source learns nothing of the destination, whichever it is.
    (∀ (d d' : Directory) (a : Account) (destination : AccountId), d 0 r.source = .ok (some a) →
      ¬r.Permits a → d' 0 r.source = d 0 r.source →
      (destination = r.source ↔ r.destination = r.source) →
        d'.judge { r with destination := destination } = d.judge r) ∧
    -- Validated on a ledger, the request leaves everything as it is.
    (∀ (w : World) (failure : Option LookupFailure), w.perform (.validate r failure) =
      (w,.ofVerdict ((w.ledger.directory failure).judge r).1)) ∧
    -- Refused, it goes no further: the service does not submit it,
    (∀ (d : Directory) (e : TransferError), (d.judge r).1 = .error e →
      ∀ (p : RetryPolicy) submit wait,
        (p.serve d.lookup submit wait r).run [] = (.error e,(d.judge r).2)) ∧
    -- and its job is over before it has made a call, and leaves the ledger alone for good.
    (∀ (b : Bank) (plan : JobPlan) (e : TransferError), plan.request = r →
      plan.retry.isSome = true →
      ((b.ledger.directory plan.lookupFailure).judge r).1 = .error e →
        ∃ b', b.advance (.launch plan) = some b' ∧ b'.ledger = b.ledger ∧
          ∀ history last, Runs b' history last →
            (∀ t ∈ history, t.move.job? ≠ some b.jobs.length) ∧
            last.jobs[b.jobs.length]? = some
              { plan := plan, started := b.clock, calls := []
                stage := .finished (.error e) b.clock }) := by
  refine ⟨?_,?_,?_,?_,?_⟩
  · intro d source destination
    rw [TransferRequest.judge_eq]
    exact ⟨fun a b => TransferRequest.verdict_eq_ok,TransferRequest.decides_verdict,
      TransferRequest.reached_unchecked,TransferRequest.reached_refused,
      TransferRequest.reached_approved⟩
  · intro d d' a destination found foreign agree other
    exact TransferRequest.judge_secretive destination found foreign agree other
  · intro w failure
    rw [World.perform,TransferRequest.validate_eq_judge]
    rcases ((w.ledger.directory failure).judge r).1 with e | ⟨a,b⟩ <;> rfl
  · intro d e refused p submit wait
    exact serve_refused refused p submit wait
  · rintro b plan e rfl service refused
    have started := start_refused b.clock service refused
    refine ⟨_,rfl,rfl,?_⟩
    intro history last runs
    obtain ⟨found,silent⟩ := runs_finished runs rfl (List.getElem?_concat_length.trans
      (congrArg some started))
    exact ⟨silent,found⟩

end DoubleEntry
