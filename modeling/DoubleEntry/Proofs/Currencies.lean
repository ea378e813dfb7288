import Mathlib.Data.List.Nodup
import DoubleEntry.Proofs.Balance
import DoubleEntry.Proofs.Resubmission
import DoubleEntry.Proofs.Serial
import DoubleEntry.Proofs.Validations

namespace DoubleEntry

def Move.Serving : Move → Prop
  | launch plan => plan.retry.isSome = true
  | move => move.Transferring

instance (m : Move) : Decidable m.Serving :=
  match m with
  | .launch plan => inferInstanceAs (Decidable (plan.retry.isSome = true))
  | .createAccount _ _ _ | .arm _ _ | .setLockHold _ | .setCommitDelay _ | .pass _ | .step _
  | .abort _ => inferInstanceAs (Decidable True)
  | .begin | .call _ _ | .resume _ | .cancel _ | .drop _ => inferInstanceAs (Decidable False)

def Serving (history : List Turn) : Prop := ∀ t ∈ history, t.move.Serving

theorem Move.Serving.transferring {m : Move} (serving : m.Serving) : m.Transferring := by
  cases m <;> trivial

theorem Serving.transferring {history : List Turn} (serving : Serving history) :
    Transferring history :=
  fun t member => (serving t member).transferring

section Validation
variable {l : Ledger} {r : TransferRequest} {failure : Option LookupFailure} {n : Nat}
  {id : AccountId}

theorem account_of_directory {a : Account} (found : l.directory failure n id = .ok (some a)) :
    l.account? id = some a := by
  unfold Ledger.directory Ledger.lookup at found
  cases failure with
  | none => exact Except.ok.inj found
  | some f =>
    dsimp only at found
    split at found
    · cases found
    · exact Except.ok.inj found

theorem validate_ok {source destination : Account}
    (valid : l.validate r failure = .ok (source,destination)) :
    l.account? r.source = some source ∧ l.account? r.destination = some destination ∧
      source.currency = destination.currency ∧
        ∀ owner, r.owner = some owner → source.owner = owner := by
  rw [TransferRequest.validate_eq_judge,TransferRequest.judge_eq] at valid
  obtain ⟨_,_,found,permitted,found',alike⟩ := TransferRequest.verdict_eq_ok.mp valid
  exact ⟨account_of_directory found,account_of_directory found',alike,permitted⟩

end Validation

def opening? (history : List Turn) (id : AccountId) : Option Account :=
  (openings history).find? (·.id = id)

def Vetted (history : List Turn) (r : TransferRequest) : Prop :=
  ∃ source destination, opening? history r.source = some source ∧
    opening? history r.destination = some destination ∧ source.currency = destination.currency ∧
      ∀ owner, r.owner = some owner → source.owner = owner

section Openings
variable {history : List Turn} {b : Bank}

theorem opening?_append {id : AccountId} {o : Account} (opened : opening? history id = some o)
    (later : List Turn) : opening? (history ++ later) id = some o := by
  unfold opening? at opened ⊢
  rw [openings_append,List.find?_append,opened,Option.some_or]

theorem Vetted.append {r : TransferRequest} (vetted : Vetted history r) (later : List Turn) :
    Vetted (history ++ later) r := by
  obtain ⟨source,destination,found,found',alike⟩ := vetted
  exact ⟨source,destination,opening?_append found later,opening?_append found' later,alike⟩

def Account.after (o : Account) (posted : List Posting) : Account :=
  { o with balance := o.balance + moved posted o.id }

theorem runs_accounts (runs : Runs {} history b) (transferring : Transferring history) :
    b.ledger.books.accounts = (openings history).map (·.after (postings history)) := by
  refine runs.within (M := Move.Transferring) (P := fun history b =>
    b.ledger.books.accounts = (openings history).map (·.after (postings history)))
    transferring rfl ?_
  intro history before move after runs transferring sound advances now accounts
  have posted := runs_posted runs transferring
  rw [openings_snoc,postings_snoc]
  cases Turn.enters advances now with
  | opens opened posting numbered accounts' =>
    have untouched := posted.untouched sound numbered
    simp only at accounts'
    rw [accounts',accounts,opened,posting]
    simp [Account.after,untouched]
  | keeps opened posting books =>
    rw [show after.ledger.books = before.ledger.books from books,accounts,opened,posting]
    simp
  | @posts p r opened posting writes =>
    have shifted : after.ledger.books.accounts =
        before.ledger.books.accounts.map p.movement.shift := congrArg Books.accounts writes.books
    rw [shifted,accounts,opened,posting]
    simp [Account.after,moved,Movement.shift,Int.add_assoc]

theorem runs_account? (runs : Runs {} history b) (transferring : Transferring history)
    (id : AccountId) :
    b.ledger.account? id = (opening? history id).map (·.after (postings history)) := by
  rw [Ledger.account?_books,runs_accounts runs transferring,List.find?_map]
  rfl

theorem vetted_of_validate {r : TransferRequest} {failure : Option LookupFailure}
    {accounts : Account × Account} (runs : Runs {} history b) (transferring : Transferring history)
    (valid : b.ledger.validate r failure = .ok accounts) : Vetted history r := by
  obtain ⟨source,destination⟩ := accounts
  obtain ⟨found,found',alike,owned⟩ := validate_ok valid
  rw [runs_account? runs transferring] at found found'
  obtain ⟨opened,first,rfl⟩ := Option.map_eq_some_iff.mp found
  obtain ⟨opened',second,rfl⟩ := Option.map_eq_some_iff.mp found'
  exact ⟨opened,opened',first,second,alike,owned⟩

theorem Vetted.accounts {r : TransferRequest} (vetted : Vetted history r)
    (runs : Runs {} history b) (transferring : Transferring history) :
    ∃ source destination, b.ledger.account? r.source = some source ∧
      b.ledger.account? r.destination = some destination ∧
      source.currency = destination.currency ∧
        ∀ owner, r.owner = some owner → source.owner = owner := by
  obtain ⟨source,destination,opened,opened',alike,owned⟩ := vetted
  refine ⟨source.after (postings history),destination.after (postings history),?_,?_,alike,owned⟩
  · rw [runs_account? runs transferring,opened,Option.map_some]
  · rw [runs_account? runs transferring,opened',Option.map_some]

end Openings

namespace Job
variable {l l' : Ledger} {j j' : Job} {plan : JobPlan}

theorem validated_of_start (checked : plan.retry.isSome = true)
    (unsettled : (start now l plan).stage.settled = false) :
    ∃ accounts, l.validate plan.request plan.lookupFailure = .ok accounts := by
  obtain ⟨policy,retry⟩ := Option.isSome_iff_exists.mp checked
  simp only [start,retry] at unsettled
  split at unsettled
  · rename_i accounts valid
    exact ⟨accounts,valid⟩
  · cases unsettled

theorem Moves.unsettled (moves : j.Moves l l' j') : j.stage.settled = false := by
  cases moves.does with
  | writes stage | unacknowledged stage =>
    rw [stage]
    rfl
  | quietly _ follows =>
    generalize j.stage = stage, j'.stage = stage' at follows
    cases follows <;> rfl

end Job

section Vetting
variable {history : List Turn} {b : Bank}

theorem runs_vetted (runs : Runs {} history b) (serving : Serving history) :
    ∀ j ∈ b.jobs, j.stage.settled = false → Vetted history j.plan.request := by
  refine runs.within (M := Move.Serving) (P := fun history b =>
    ∀ j ∈ b.jobs, j.stage.settled = false → Vetted history j.plan.request) serving (by simp) ?_
  intro history before move after runs serving _ advances now earlier j member unsettled
  have kept {j : Job} (member : j ∈ before.jobs) (unsettled : j.stage.settled = false) :
      Vetted (history ++ [⟨before,move,after⟩]) j.plan.request :=
    (earlier j member unsettled).append _
  cases advances with
  | opens => exact kept member unsettled
  | arranges _ _ _ _ jobs =>
    rw [jobs] at member
    exact kept member unsettled
  | byHand hand => exact absurd now.transferring hand
  | launches =>
    rcases List.mem_append.mp member with old | new
    · exact kept old unsettled
    · cases List.mem_singleton.mp new
      obtain ⟨accounts,valid⟩ := Job.validated_of_start now unsettled
      exact (vetted_of_validate runs (Serving.transferring serving) valid).append _
  | steps found moves =>
    rcases List.mem_or_eq_of_mem_set member with old | rfl
    · exact kept old unsettled
    · rw [moves.plan]
      exact kept (List.mem_of_getElem? found) moves.unsettled
  | aborts =>
    rcases List.mem_or_eq_of_mem_set member with old | rfl
    · exact kept old unsettled
    · cases unsettled

theorem Stage.unsettled_of_call? {stage : Stage} (call : stage.call? = some a) :
    stage.settled = false := by
  cases stage <;> first | rfl | cases call

theorem runs_checked (runs : Runs {} history b) (serving : Serving history) :
    ∀ p ∈ postings history, ∃ j, b.jobs[p.job]? = some j ∧ j.plan.movement = p.movement ∧
      Vetted history j.plan.request := by
  refine runs.within (M := Move.Serving) (P := fun history b =>
    ∀ p ∈ postings history, ∃ j, b.jobs[p.job]? = some j ∧ j.plan.movement = p.movement ∧
      Vetted history j.plan.request) serving (by simp [postings]) ?_
  intro history before move after runs serving _ advances _ earlier p member
  have checked : ∃ j, before.jobs[p.job]? = some j ∧ j.plan.movement = p.movement ∧
      Vetted history j.plan.request := by
    rw [postings_snoc,List.mem_append] at member
    rcases member with old | new
    · exact earlier p old
    · obtain ⟨_,_,j,found,call,same⟩ := Turn.posting?_eq_some.mp (Option.mem_toList.mp new)
      have unsettled := Stage.unsettled_of_call? call
      exact ⟨j,found,same,
        runs_vetted runs serving j (List.mem_of_getElem? found) unsettled⟩
  obtain ⟨j,found,same,vetted⟩ := checked
  obtain ⟨j',found',plan⟩ := (advances.concerns p.job).plan found
  exact ⟨j',found',(congrArg JobPlan.movement plan).trans same,plan ▸ vetted.append _⟩

theorem runs_postings (runs : Runs {} history b) (transferring : Transferring history) (i : Nat) :
    ∀ t ∈ booked history i, ∃ p ∈ postings history, p.job = i ∧ p.movement = t.movement := by
  refine runs.within (M := Move.Transferring) (P := fun history _ =>
    ∀ t ∈ booked history i, ∃ p ∈ postings history, p.job = i ∧ p.movement = t.movement)
    transferring (by simp [booked]) ?_
  intro history before move after _ _ _ advances now earlier t member
  rw [postings_snoc]
  unfold booked at member
  rw [List.filter_append,List.flatMap_append,List.mem_append] at member
  rcases member with old | new
  · obtain ⟨p,posted,own⟩ := earlier t old
    exact ⟨p,List.mem_append_left _ posted,own⟩
  · obtain ⟨turn,taken,here⟩ := List.mem_flatMap.mp new
    obtain ⟨last,mine⟩ := List.mem_filter.mp taken
    cases List.mem_singleton.mp last
    cases Turn.enters advances now with
    | opens _ _ _ _ _ transfers =>
      rw [Turn.booked_of_same transfers] at here
      cases here
    | keeps _ _ books =>
      rw [Turn.booked_of_same (congrArg Books.transfers books)] at here
      cases here
    | @posts p r _ posting writes =>
      rw [Turn.booked_of_writes writes] at here
      cases List.mem_singleton.mp here
      obtain ⟨stays,_⟩ := Turn.posting?_eq_some.mp posting
      obtain ⟨source,destination,amount⟩ := writes.transfer
      refine ⟨p,by simp [posting],?_,?_⟩
      · cases stays
        exact Option.some.inj (of_decide_eq_true mine)
      · rw [Transfer.movement,source,destination,amount]

def idsIn (history : List Turn) (currency : Currency) : List AccountId :=
  ((openings history).filter (·.currency = currency)).map Account.id

theorem mem_idsIn {currency : Currency} {id : AccountId} {o : Account}
    (distinct : ((openings history).map Account.id).Nodup) (opened : opening? history id = some o) :
    id ∈ idsIn history currency ↔ o.currency = currency := by
  have member : o ∈ openings history := List.mem_of_find?_eq_some opened
  have named : o.id = id := by simpa using List.find?_some opened
  unfold idsIn
  constructor
  · intro listed
    obtain ⟨o',kept,same⟩ := List.mem_map.mp listed
    obtain ⟨member',right⟩ := List.mem_filter.mp kept
    have alike : o' = o := List.inj_on_of_nodup_map distinct member' member (same.trans named.symm)
    exact alike ▸ of_decide_eq_true right
  · intro right
    exact named ▸ List.mem_map_of_mem (List.mem_filter.mpr ⟨member,decide_eq_true right⟩)

theorem runs_inside (runs : Runs {} history b) (serving : Serving history) (currency : Currency) :
    ∀ p ∈ postings history, p.movement.source ∈ idsIn history currency ↔
      p.movement.destination ∈ idsIn history currency := by
  intro p posted
  have distinct := (runs_posted runs serving.transferring).distinct (runs_sound runs)
  obtain ⟨j,_,same,source,destination,opened,opened',alike,_⟩ := runs_checked runs serving p posted
  rw [← same]
  have first : j.plan.movement.source ∈ idsIn history currency ↔ source.currency = currency :=
    mem_idsIn distinct opened
  have second : j.plan.movement.destination ∈ idsIn history currency ↔
      destination.currency = currency := mem_idsIn distinct opened'
  rw [first,second,alike]

theorem sum_currency (runs : Runs {} history b) (serving : Serving history) (currency : Currency) :
    ((b.ledger.books.accounts.filter (·.currency = currency)).map Account.balance).sum =
      (((openings history).filter (·.currency = currency)).map Account.balance).sum := by
  have distinct := (runs_posted runs serving.transferring).distinct (runs_sound runs)
  have kept : (idsIn history currency).Nodup :=
    distinct.sublist (List.filter_sublist.map Account.id)
  have nothing := sum_moved kept (runs_inside runs serving currency)
  rw [idsIn,List.map_map] at nothing
  let inside := (openings history).filter (·.currency = currency)
  calc
    ((b.ledger.books.accounts.filter (·.currency = currency)).map Account.balance).sum =
        (inside.map fun o => o.balance + moved (postings history) o.id).sum := by
      rw [runs_accounts runs serving.transferring,List.filter_map,List.map_map]
      rfl
    _ = (inside.map Account.balance).sum +
          (inside.map fun o => moved (postings history) o.id).sum := List.sum_map_add
    _ = (inside.map Account.balance).sum := by
      rw [show (inside.map fun o => moved (postings history) o.id).sum = 0 from nothing]
      exact Int.add_zero _

end Vetting

section Services
variable {history : List Turn} {b : Bank}

theorem service_keeps_apart (runs : Runs {} history b) (serving : Serving history) :
    -- Nothing but its balance ever changes in an account.
    (∀ id a, b.ledger.account? id = some a →
      ∃ o ∈ openings history, a = { o with balance := a.balance } ∧
        ∀ later b', Runs b later b' → Serving later →
          ∃ balance, b'.ledger.account? id = some { a with balance := balance }) ∧
    -- No transfer leaves its currency, or takes from another owner than the one named.
    (∀ t ∈ b.ledger.transfers, ∃ source destination, b.ledger.account? t.source = some source ∧
      b.ledger.account? t.destination = some destination ∧
      source.currency = destination.currency) ∧
    (∀ i j owner, b.jobs[i]? = some j → j.plan.request.owner = some owner →
      ∀ t ∈ booked history i, ∃ source, b.ledger.account? t.source = some source ∧
        source.owner = owner) ∧
    ∀ currency, ((b.ledger.books.accounts.filter (·.currency = currency)).map Account.balance).sum =
      (((openings history).filter (·.currency = currency)).map Account.balance).sum := by
  have transferring := serving.transferring
  refine ⟨?_,?_,?_,sum_currency runs serving⟩
  · intro id a found
    rw [runs_account? runs transferring] at found
    obtain ⟨o,opened,rfl⟩ := Option.map_eq_some_iff.mp found
    refine ⟨o,List.mem_of_find?_eq_some opened,rfl,?_⟩
    intro later b' onward served
    have whole : Transferring (history ++ later) := by
      intro t member
      rcases List.mem_append.mp member with old | new
      · exact transferring t old
      · exact served.transferring t new
    rw [runs_account? (runs.append onward) whole,opening?_append opened later]
    exact ⟨_,rfl⟩
  · intro t committed
    have posted := runs_posted runs transferring
    have listed := posted.transfers ▸ List.mem_map_of_mem committed
    obtain ⟨p,member,same⟩ := List.mem_map.mp listed
    obtain ⟨j,_,asked,vetted⟩ := runs_checked runs serving p member
    obtain ⟨source,destination,found,found',alike,_⟩ := vetted.accounts runs transferring
    have movement : j.plan.request.toMovement = t.movement := asked.trans same
    have from_source : j.plan.request.source = t.source := congrArg Movement.source movement
    have to_destination : j.plan.request.destination = t.destination :=
      congrArg Movement.destination movement
    exact ⟨source,destination,from_source ▸ found,to_destination ▸ found',alike⟩
  · intro i j owner found named t committed
    obtain ⟨p,member,rfl,same⟩ := runs_postings runs transferring i t committed
    obtain ⟨j',found',asked,vetted⟩ := runs_checked runs serving p member
    cases Option.some.inj (found.symm.trans found')
    obtain ⟨source,_,seen,_,_,owned⟩ := vetted.accounts runs transferring
    have from_source : j.plan.request.source = t.source :=
      congrArg Movement.source (asked.trans same)
    exact ⟨source,from_source ▸ seen,owned owner named⟩

end Services

-- Two owners pay each other at the same time, and the second loses the acknowledgement of its
-- commit. Two more requests are refused, for the currency and for the owner. The last account is
-- opened while the others are at work.
def served : List Move :=
  [.createAccount "alice" .eur 1000,.createAccount "bob" .eur 500,.createAccount "carol" .usd 300,
    .launch {
      request := { source := 1, destination := 2, amount := 100, owner := some "alice" }
      retry := some ⟨1,10⟩ },
    .launch {
      request := { source := 2, destination := 1, amount := 50, owner := some "bob" }
      retry := some ⟨1,10⟩ },
    .launch { request := { source := 1, destination := 3, amount := 30 }, retry := some ⟨1,10⟩ },
    .launch {
      request := { source := 2, destination := 1, amount := 20, owner := some "alice" }
      retry := some ⟨1,10⟩ },
    .step 0,.step 1,.step 0,.step 1,.step 0,.step 1,.step 0,.step 1,.step 0,.step 1,.step 0,
    .createAccount "dave" .usd 0,
    .launch {
      request := { source := 3, destination := 4, amount := 70, owner := some "carol" }
      retry := some ⟨1,10⟩ },
    .step 0,.step 0,.step 1,.step 1,.arm .commitAcknowledgement (.transient "lost"),.step 1,.step 1,
    .step 4,.step 4,.step 4,.step 4,.step 4,.step 4,.step 4,.step 4,.pass 10,
    .step 1,.step 1,.step 1,.step 1,.step 1,.step 1,.step 1,.step 1,.step 1]

theorem served_ends : (Bank.replay {} served).isSome = true := by decide +kernel

def servedRun : List Turn × Bank := (Bank.replay {} served).get served_ends

theorem service_keeps_apart_served :
    Runs {} servedRun.1 servedRun.2 ∧ Serving servedRun.1 ∧
      servedRun.2.ledger.transfers.length = 4 ∧ (booked servedRun.1 1).length = 2 ∧
      (∀ t ∈ booked servedRun.1 1, ∃ source,
        servedRun.2.ledger.account? t.source = some source ∧ source.owner = "bob") ∧
      ((servedRun.2.ledger.books.accounts.filter (·.currency = .eur)).map Account.balance).sum =
        1500 := by
  have runs : Runs {} servedRun.1 servedRun.2 := runs_of_ends served_ends
  have serving : Serving servedRun.1 := by
    unfold Serving
    decide +kernel
  obtain ⟨_,_,owners,sums⟩ := service_keeps_apart runs serving
  have named : servedRun.2.jobs[1]?.map (·.plan.request.owner) = some (some "bob") := by
    decide +kernel
  obtain ⟨j,found,owner⟩ := Option.map_eq_some_iff.mp named
  have opened : ((openings servedRun.1).filter (·.currency = .eur)).map Account.balance =
      [1000,500] := by decide +kernel
  refine ⟨runs,serving,by decide +kernel,by decide +kernel,owners 1 j "bob" found owner,?_⟩
  rw [sums,opened]
  rfl

end DoubleEntry
