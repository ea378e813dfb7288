import Mathlib.Algebra.BigOperators.Group.List.Basic
import Mathlib.Algebra.GroupWithZero.Nat
import Mathlib.Algebra.Ring.Int.Defs
import DoubleEntry.Proofs.Grants
import DoubleEntry.Proofs.Serial

namespace DoubleEntry

def Move.Schedules : Move → Prop
  | launch _ | step _ | pass _ | setLockHold _ | setCommitDelay _ => True
  | _ => False

instance (m : Move) : Decidable m.Schedules :=
  match m with
  | .launch _ | .step _ | .pass _ | .setLockHold _ | .setCommitDelay _ =>
    inferInstanceAs (Decidable True)
  | .createAccount _ _ _ | .arm _ _ | .abort _ | .begin | .call _ _ | .resume _ | .cancel _
  | .drop _ => inferInstanceAs (Decidable False)

def Move.steps : Move → Bool
  | step _ => true
  | _ => false

namespace Turn

def launched (t : Turn) : List JobPlan :=
  match t.move with
  | .launch plan => [plan]
  | _ => []

def expires (t : Turn) : Bool :=
  match t.move with
  | .step i => t.before.jobs[i]?.any (·.givesUp t.before.clock t.before.ledger)
  | _ => false

end Turn

def launched (history : List Turn) : List JobPlan := history.flatMap Turn.launched

def movements (history : List Turn) : List Movement := (launched history).map JobPlan.movement

def stepsOf (history : List Turn) : Nat := history.countP (·.move.steps)

-- The amounts of the movements that have the account on this side.
def flow (side : Movement → AccountId) (ms : List Movement) (id : AccountId) : Int :=
  (ms.map fun m => if side m = id then m.amount else 0).sum

-- The account can bear the movements in whatever order they come.
structure Account.Room (a : Account) (ms : List Movement) : Prop where
  below : Bigint.least ≤ a.balance - flow Movement.source ms a.id
  above : a.balance + flow Movement.destination ms a.id ≤ Bigint.greatest

instance (a : Account) (ms : List Movement) : Decidable (a.Room ms) :=
  decidable_of_iff (_ ∧ _) ⟨fun ⟨below,above⟩ => ⟨below,above⟩,fun room => ⟨room.below,room.above⟩⟩

structure Bank.Idle (b : Bank) : Prop where
  closed : b.ledger.live = []
  unarmed : b.ledger.faults = []
  settled : ∀ j ∈ b.jobs, j.stage.settled = true

-- From here on there is nothing but plain transfers between existing accounts, each of which has
-- room for all of them; and no call is given up.
structure Undisturbed (origin : Bank) (history : List Turn) : Prop where
  moves : ∀ t ∈ history, t.move.Schedules
  plain : ∀ plan ∈ launched history, plan.retry = none ∧ plan.failures = []
  valid : ∀ m ∈ movements history, m.source ≠ m.destination ∧ 0 < m.amount
  known : ∀ m ∈ movements history,
    (origin.ledger.account? m.source).isSome ∧ (origin.ledger.account? m.destination).isSome
  room : ∀ a ∈ origin.ledger.books.accounts, a.Room (movements history)
  punctual : ∀ t ∈ history, t.expires = false

section Flow
variable {side : Movement → AccountId} {ms more : List Movement} {id : AccountId}

theorem flow_append (side : Movement → AccountId) (ms more : List Movement) (id : AccountId) :
    flow side (ms ++ more) id = flow side ms id + flow side more id := by
  simp [flow]

theorem flow_perm (same : ms.Perm more) (id : AccountId) : flow side ms id = flow side more id :=
  (same.map _).sum_eq

theorem flow_nonneg (positive : ∀ m ∈ ms, 0 < m.amount) (id : AccountId) :
    0 ≤ flow side ms id := by
  induction ms with
  | nil => exact Int.le_refl 0
  | cons m rest ih =>
    have here := positive m List.mem_cons_self
    have later : 0 ≤ flow side rest id :=
      ih fun m member => positive m (List.mem_cons_of_mem _ member)
    have split : flow side (m :: rest) id =
        (if side m = id then m.amount else 0) + flow side rest id := rfl
    rw [split]
    split <;> omega

theorem Account.Room.part {a : Account} {less : List Movement} (room : a.Room ms)
    (part : (less ++ more).Perm ms) (positive : ∀ m ∈ ms, 0 < m.amount) : a.Room less := by
  have rest (side : Movement → AccountId) : flow side less a.id ≤ flow side ms a.id := by
    have spare : 0 ≤ flow side more a.id :=
      flow_nonneg (fun m member => positive m (part.subset (List.mem_append_right _ member))) a.id
    rw [← flow_perm part,flow_append]
    omega
  have out := rest Movement.source
  have into := rest Movement.destination
  obtain ⟨below,above⟩ := room
  constructor <;> omega

theorem change_eq (m : Movement) (id : AccountId) :
    m.change id = flow Movement.destination [m] id - flow Movement.source [m] id := by
  have flip : ∀ seen, (id = seen) = (seen = id) := fun seen => propext eq_comm
  simp only [flow,List.map_cons,List.map_nil,List.sum_cons,List.sum_nil,Movement.change,flip]
  split <;> split <;> omega

theorem moved_eq (posted : List Posting) (id : AccountId) :
    moved posted id = flow Movement.destination (posted.map Posting.movement) id -
      flow Movement.source (posted.map Posting.movement) id := by
  induction posted with
  | nil => rfl
  | cons p rest ih =>
    have here : moved (p :: rest) id = p.movement.change id + moved rest id := rfl
    have split (side : Movement → AccountId) : flow side ((p :: rest).map Posting.movement) id =
        flow side [p.movement] id + flow side (rest.map Posting.movement) id :=
      flow_append side [p.movement] _ id
    rw [here,ih,change_eq,split,split]
    omega

end Flow

structure Gained (origin : Bank) (history : List Turn) (b : Bank) : Prop where
  transfers : ∃ more, b.ledger.transfers = origin.ledger.transfers ++ more ∧
    more.map Transfer.movement = (postings history).map Posting.movement
  entries : ∃ more, b.ledger.entries = origin.ledger.entries ++ more ∧
    more.map (fun e => (e.account,e.amount)) = (postings history).flatMap (·.movement.lines)
  accounts : b.ledger.books.accounts = origin.ledger.books.accounts.map fun a =>
    { a with balance := a.balance + moved (postings history) a.id }

namespace Gained
variable {origin : Bank} {history : List Turn} {t : Turn}

theorem start (origin : Bank) : Gained origin [] origin := by
  refine ⟨⟨[],(List.append_nil _).symm,rfl⟩,⟨[],(List.append_nil _).symm,rfl⟩,?_⟩
  refine (List.map_id _).symm.trans (List.map_congr_left fun a _ => ?_)
  exact congrArg (fun balance => { a with balance := balance }) (Int.add_zero a.balance).symm

theorem keeps (gained : Gained origin history t.before) (posting : t.posting? = none)
    (books : t.after.ledger.books = t.before.ledger.books) :
    Gained origin (history ++ [t]) t.after := by
  have posted : postings (history ++ [t]) = postings history := by
    rw [postings_snoc,posting]
    exact List.append_nil _
  have transfers : t.after.ledger.transfers = t.before.ledger.transfers :=
    congrArg Books.transfers books
  have entries : t.after.ledger.entries = t.before.ledger.entries := congrArg Books.entries books
  exact ⟨by rw [transfers,posted]; exact gained.transfers,
    by rw [entries,posted]; exact gained.entries,by rw [books,posted]; exact gained.accounts⟩

theorem posts {p : Posting} {r : Receipt} (gained : Gained origin history t.before)
    (posting : t.posting? = some p)
    (writes : Job.Writes p.movement r t.before.ledger t.after.ledger) :
    Gained origin (history ++ [t]) t.after := by
  have posted : postings (history ++ [t]) = postings history ++ [p] := by
    rw [postings_snoc,posting]
    rfl
  have accounts : t.after.ledger.books.accounts =
      t.before.ledger.books.accounts.map p.movement.shift := congrArg Books.accounts writes.books
  obtain ⟨transfers,transferred,moved'⟩ := gained.transfers
  obtain ⟨entries,entered,lines⟩ := gained.entries
  obtain ⟨source,destination,amount⟩ := writes.transfer
  refine ⟨⟨transfers ++ [r.transfer],?_,?_⟩,⟨entries ++ [r.debit,r.credit],?_,?_⟩,?_⟩
  · rw [writes.transfers,transferred,List.append_assoc]
  · rw [posted,List.map_append,List.map_append,moved']
    simp [Transfer.movement,source,destination,amount]
  · rw [writes.entries,entered,List.append_assoc]
  · rw [posted,List.map_append,List.flatMap_append,lines]
    simp [Movement.lines,writes.debit.1,writes.debit.2,writes.credit.1,writes.credit.2]
  · rw [accounts,gained.accounts,List.map_map,posted]
    refine List.map_congr_left fun a _ => ?_
    simp [Movement.shift,moved,Int.add_assoc]

end Gained

def unposted (jobs : List Job) : List Movement :=
  (jobs.filter (·.stage.call?.isSome)).map (·.plan.movement)

-- The jobs that were launched since the origin, all on their course: each movement has been posted
-- or is still to be posted.
structure OnCourse (origin : Bank) (history : List Turn) (b : Bank) (new : List Job) : Prop where
  unarmed : b.ledger.faults = []
  jobs : b.jobs = origin.jobs ++ new
  plans : new.map Job.plan = launched history
  course : ∀ j ∈ new, j.stage.OnCourse
  order : ((postings history).map Posting.movement ++ unposted new).Perm (movements history)
  gained : Gained origin history b
  steps : stepsOf history + (new.map Job.weight).sum ≤ 32 * (launched history).length

theorem launched_snoc (history : List Turn) (t : Turn) :
    launched (history ++ [t]) = launched history ++ t.launched := by
  simp [launched]

theorem movements_snoc (history : List Turn) (t : Turn) :
    movements (history ++ [t]) = movements history ++ t.launched.map JobPlan.movement := by
  rw [movements,launched_snoc,List.map_append,movements]

theorem stepsOf_snoc (history : List Turn) (t : Turn) :
    stepsOf (history ++ [t]) = stepsOf history + if t.move.steps then 1 else 0 := by
  simp [stepsOf,List.countP_append,List.countP_cons]

theorem Undisturbed.earlier {t : Turn} (undisturbed : Undisturbed origin (history ++ [t])) :
    Undisturbed origin history := by
  obtain ⟨moves,plain,valid,known,room,punctual⟩ := undisturbed
  rw [movements_snoc] at valid known room
  rw [launched_snoc] at plain
  exact ⟨fun t member => moves t (List.mem_append_left _ member),
    fun plan member => plain plan (List.mem_append_left _ member),
    fun m member => valid m (List.mem_append_left _ member),
    fun m member => known m (List.mem_append_left _ member),
    fun a member => (room a member).part (.refl _) fun m listed => (valid m listed).2,
    fun t member => punctual t (List.mem_append_left _ member)⟩

namespace OnCourse
variable {origin b : Bank} {history : List Turn} {new : List Job} {t : Turn}

-- Whatever has been posted so far, there is room for each movement that is still to be posted.
theorem affords (course : OnCourse origin history b new) (undisturbed : Undisturbed origin history)
    {j : Job} (member : j ∈ new) (unended : j.stage.call?.isSome = true) :
    b.ledger.Affords j.plan.movement := by
  have waiting : j.plan.movement ∈ unposted new :=
    List.mem_map_of_mem (List.mem_filter.mpr ⟨member,unended⟩)
  have listed : j.plan.movement ∈ movements history :=
    course.order.subset (List.mem_append_right _ waiting)
  obtain ⟨before,after,split⟩ := List.append_of_mem waiting
  -- The postings with this movement after them are a part of all movements.
  have part : ((postings history).map Posting.movement ++ [j.plan.movement] ++
      (before ++ after)).Perm (movements history) := by
    refine List.Perm.trans ?_ course.order
    rw [split,List.append_assoc]
    exact (@List.perm_middle _ _ before _).symm.append_left _
  have bears {id : AccountId} (known : (origin.ledger.account? id).isSome) :
      ∃ a, b.ledger.account? id = some a ∧
        Bigint.Fits (a.balance + j.plan.movement.change id) := by
    obtain ⟨o,opened⟩ := Option.isSome_iff_exists.mp known
    have named := Ledger.id_of_account? opened
    rw [Ledger.account?_books] at opened
    have positive : ∀ m ∈ movements history, 0 < m.amount := fun m member =>
      (undisturbed.valid m member).2
    have room := (undisturbed.room o (List.mem_of_find?_eq_some opened)).part part positive
    refine ⟨{ o with balance := o.balance + moved (postings history) o.id },?_,?_⟩
    · rw [Ledger.account?_books,course.gained.accounts,List.find?_map]
      exact congrArg (Option.map _) opened
    · have out := room.below
      have into := room.above
      have gains (side : Movement → AccountId) : 0 ≤ flow side
          ((postings history).map Posting.movement ++ [j.plan.movement]) o.id :=
        flow_nonneg (fun m member => positive m (part.subset (List.mem_append_left _ member))) o.id
      have losses := gains Movement.source
      have profits := gains Movement.destination
      rw [← named,change_eq,moved_eq]
      rw [flow_append] at out into losses profits
      constructor <;> dsimp only <;> omega
  obtain ⟨source,destination⟩ := undisturbed.known _ listed
  have different := (undisturbed.valid _ listed).1
  have debit := Movement.change_source different
  have credit : j.plan.movement.change j.plan.movement.destination = j.plan.movement.amount := by
    simp [Movement.change,Ne.symm different]
  exact ⟨debit ▸ bears source,credit ▸ bears destination⟩

theorem start (idle : origin.Idle) : OnCourse origin [] origin [] :=
  ⟨idle.unarmed,(List.append_nil _).symm,rfl,by simp,.refl _,.start origin,Nat.le_refl _⟩

theorem waits (course : OnCourse origin history t.before new) (launches : t.launched = [])
    (posting : t.posting? = none) (steps : t.move.steps = false)
    (books : t.after.ledger.books = t.before.ledger.books)
    (faults : t.after.ledger.faults = t.before.ledger.faults)
    (jobs : t.after.jobs = t.before.jobs) : OnCourse origin (history ++ [t]) t.after new := by
  have launched' : launched (history ++ [t]) = launched history := by
    rw [launched_snoc,launches,List.append_nil]
  have posted : postings (history ++ [t]) = postings history := by
    rw [postings_snoc,posting]
    exact List.append_nil _
  refine ⟨faults.trans course.unarmed,jobs.trans course.jobs,by rw [launched',course.plans],
    course.course,?_,course.gained.keeps posting books,?_⟩
  · rw [posted,movements,launched']
    exact course.order
  · rw [stepsOf_snoc,steps,launched']
    exact course.steps

theorem launches {before : Bank} {plan : JobPlan}
    (course : OnCourse origin history before new) (plain : plan.retry = none)
    (checked : plan.movement.check = .ok ()) :
    let after : Bank :=
      { before with jobs := before.jobs ++ [Job.start before.clock before.ledger plan] }
    OnCourse origin (history ++ [⟨before,.launch plan,after⟩]) after
      (new ++ [Job.start before.clock before.ledger plan]) := by
  intro after
  let t : Turn := ⟨before,.launch plan,after⟩
  have stage := Job.start_plain before.clock before.ledger plain checked
  have asked : (Job.start before.clock before.ledger plan).plan = plan := rfl
  have launched' : launched (history ++ [t]) = launched history ++ [plan] := launched_snoc history t
  have posted : postings (history ++ [t]) = postings history :=
    (postings_snoc history t).trans (List.append_nil _)
  refine ⟨course.unarmed,?_,?_,?_,?_,course.gained.keeps (t := t) rfl rfl,?_⟩
  · change before.jobs ++ _ = _
    rw [course.jobs,List.append_assoc]
  · rw [launched',List.map_append,course.plans]
    rfl
  · intro j member
    rcases List.mem_append.mp member with old | last
    · exact course.course j old
    · cases List.mem_singleton.mp last
      rw [stage]
      trivial
  · have more : unposted (new ++ [Job.start before.clock before.ledger plan]) =
        unposted new ++ [plan.movement] := by
      simp [unposted,stage,Stage.call?,asked]
    rw [posted,movements_snoc,more,← List.append_assoc]
    exact course.order.append_right [plan.movement]
  · have light : (Job.start before.clock before.ledger plan).weight ≤ 32 := by
      simp [Job.weight,stage,Stage.weight,JobPlan.policy,asked,plain,Phase.rank,waitWeight]
    have steps := course.steps
    rw [launched',stepsOf_snoc,List.map_append,List.sum_append,List.length_append]
    simp only [List.map_cons,List.map_nil,List.sum_cons,List.sum_nil,List.length_singleton,
      Move.steps]
    simp only [Bool.false_eq_true,if_false]
    omega

end OnCourse

-- A quiet step neither takes up an attempt nor leaves one, as long as nothing has failed.
theorem Stage.Follows.call?_of_onCourse {plan : JobPlan} {stage stage' : Stage}
    (follows : stage.Follows plan stage') (course : stage.OnCourse) (course' : stage'.OnCourse) :
    stage'.call?.isSome = stage.call?.isSome := by
  cases follows with
  | @goesOn n d d' tx tx' p p' w w' unended unanswered =>
    have unended' : ∀ outcome, p' ≠ .ended outcome := by
      rintro (e | r) rfl
      · cases course'
      · exact unanswered r rfl
    rw [call?_running unended,call?_running unended']
  | @rests _ _ _ _ _ outcome _ again =>
    cases outcome with
    | ok r => cases again
    | error e => cases course
  | finishes => rfl
  | wakes => cases course

theorem exists_set {α : Type} {xs : List α} {i : Nat} {x : α} (found : xs[i]? = some x) :
    ∃ before after, xs = before ++ x :: after ∧ ∀ y, xs.set i y = before ++ y :: after := by
  obtain ⟨bound,rfl⟩ := List.getElem?_eq_some_iff.mp found
  refine ⟨xs.take i,xs.drop (i + 1),?_,fun y => List.set_eq_take_append_cons_drop.trans ?_⟩
  · simp
  · rw [if_pos bound]

namespace OnCourse
variable {origin b : Bank} {history : List Turn} {new : List Job}

theorem unposted_split (before after : List Job) (j : Job) :
    unposted (before ++ j :: after) = unposted before ++
      (if j.stage.call?.isSome then [j.plan.movement] else []) ++ unposted after := by
  by_cases here : j.stage.call?.isSome = true <;>
    simp [unposted,here]

theorem found_new (course : OnCourse origin history b new) (idle : origin.Idle) {i : Nat}
    {j : Job} (found : b.jobs[i]? = some j) (moving : j.stage.settled = false) :
    new[i - origin.jobs.length]? = some j ∧
      ∀ j', b.jobs.set i j' = origin.jobs ++ new.set (i - origin.jobs.length) j' := by
  rw [course.jobs] at found
  by_cases old : i < origin.jobs.length
  · rw [List.getElem?_append_left old] at found
    rw [idle.settled j (List.mem_of_getElem? found)] at moving
    cases moving
  · have later := Nat.le_of_not_lt old
    rw [List.getElem?_append_right later] at found
    refine ⟨found,fun j' => ?_⟩
    rw [course.jobs,List.set_append_right _ _ later]

theorem stepped {t : Turn} {earlier later : List Job} {j j' : Job}
    (course : OnCourse origin history t.before (earlier ++ j :: later))
    (jobs : t.after.jobs = origin.jobs ++ (earlier ++ j' :: later)) (plan : j'.plan = j.plan)
    (unarmed : t.after.ledger.faults = []) (onCourse : j'.stage.OnCourse)
    (lighter : j'.weight < j.weight) (steps : t.move.steps = true) (launches : t.launched = [])
    (gained : Gained origin (history ++ [t]) t.after)
    (order : ((postings (history ++ [t])).map Posting.movement ++
      unposted (earlier ++ j' :: later)).Perm ((postings history).map Posting.movement ++
        unposted (earlier ++ j :: later))) :
    OnCourse origin (history ++ [t]) t.after (earlier ++ j' :: later) := by
  have launched' : launched (history ++ [t]) = launched history := by
    rw [launched_snoc,launches,List.append_nil]
  refine ⟨unarmed,jobs,?_,?_,?_,gained,?_⟩
  · rw [launched',← course.plans]
    simp [plan]
  · intro k member
    rcases List.mem_append.mp member with before | here
    · exact course.course k (List.mem_append_left _ before)
    · rcases List.mem_cons.mp here with rfl | after
      · exact onCourse
      · exact course.course k (List.mem_append_right _ (List.mem_cons_of_mem _ after))
  · rw [movements,launched']
    exact order.trans course.order
  · have before := course.steps
    rw [stepsOf_snoc,steps,launched']
    simp only [List.map_append,List.map_cons,List.sum_append,List.sum_cons,if_true] at before ⊢
    omega

theorem step_gains {before : Bank} {i : Nat} {j j' : Job} {l' : Ledger}
    (earlier later : List Job) (gained : Gained origin history before)
    (unarmed : before.ledger.faults = []) (found : before.jobs[i]? = some j)
    (course : j.stage.OnCourse) (course' : j'.stage.OnCourse)
    (moves : Job.Moves before.ledger j l' j') :
    let t : Turn := ⟨before,.step i,{ before with ledger := l', jobs := before.jobs.set i j' }⟩
    Gained origin (history ++ [t]) t.after ∧
      ((postings (history ++ [t])).map Posting.movement ++ unposted (earlier ++ j' :: later)).Perm
        ((postings history).map Posting.movement ++ unposted (earlier ++ j :: later)) := by
  intro t
  cases moves.does with
  | quietly quiet follows =>
    have posting : t.posting? = none := Turn.posting?_of_quiet quiet
    refine ⟨gained.keeps posting quiet.books,List.Perm.of_eq ?_⟩
    rw [postings_snoc,posting,unposted_split,unposted_split,moves.plan,
      follows.call?_of_onCourse course course',Option.toList_none,List.append_nil]
  | @writes n _ _ _ _ _ stage writes _ answered =>
    have posting : t.posting? = some ⟨i,n,j.plan.movement⟩ := Turn.posting?_eq_some.mpr
      ⟨rfl,Turn.changes_of_writes writes,j,found,by rw [stage]; rfl,rfl⟩
    refine ⟨gained.posts posting writes,?_⟩
    rw [postings_snoc,posting,unposted_split,unposted_split,stage,answered]
    simp only [Option.toList_some,List.map_append,List.map_cons,List.map_nil,Stage.call?,
      Option.isSome_some,Option.isSome_none,Bool.false_eq_true,if_true,if_false,
      List.append_nil,List.append_assoc,List.singleton_append]
    exact (@List.perm_middle _ _ (unposted earlier) _).symm.append_left _
  | unacknowledged _ _ armed =>
    rw [Ledger.fault?,unarmed] at armed
    cases armed

theorem steps_on {before after : Bank} {i : Nat} (course : OnCourse origin history before new)
    (idle : origin.Idle) (sound : before.Sound)
    (undisturbed : Undisturbed origin (history ++ [⟨before,.step i,after⟩]))
    (advanced : before.advance (.step i) = some after) :
    ∃ new', OnCourse origin (history ++ [⟨before,.step i,after⟩]) after new' := by
  obtain ⟨j,l',j',found,stepped,rfl⟩ := Bank.updateJob_eq_some advanced
  have moving : j.stage.settled = false := by
    cases stage : j.stage with
    | finished | cancelled => simp [Job.step,stage] at stepped
    | running | resting => rfl
  obtain ⟨found',set⟩ := course.found_new idle found moving
  have member := List.mem_of_getElem? found'
  have moves := Job.step_moves sound.ledger (sound.job found) stepped
  have asked : j.plan ∈ launched history := course.plans ▸ List.mem_map_of_mem member
  have patient : j.givesUp before.clock before.ledger = false := by
    have punctual := undisturbed.punctual _ (List.mem_append_right _ (List.mem_singleton_self _))
    simpa [Turn.expires,found] using punctual
  obtain ⟨unarmed,onCourse⟩ := Job.step_onCourse (sound.job found) (course.course j member)
    course.unarmed (undisturbed.earlier.plain _ asked).2
    (course.affords undisturbed.earlier member) patient stepped
  obtain ⟨earlier,later,split,same⟩ := exists_set found'
  subst split
  let t : Turn := ⟨before,.step i,{ before with ledger := l', jobs := before.jobs.set i j' }⟩
  have jobs : t.after.jobs = origin.jobs ++ (earlier ++ j' :: later) := by
    rw [← same]
    exact set j'
  have books := step_gains earlier later course.gained course.unarmed found (course.course j member)
    onCourse moves
  exact ⟨earlier ++ j' :: later,course.stepped (t := t) jobs moves.plan unarmed onCourse
    (Job.step_weight stepped) rfl rfl books.1 books.2⟩

end OnCourse

theorem runs_onCourse (setup : Runs {} past origin) (idle : origin.Idle)
    (runs : Runs origin history b) (undisturbed : Undisturbed origin history) :
    ∃ new, OnCourse origin history b new := by
  induction runs with
  | nil => exact ⟨[],.start idle⟩
  | @step history before move after runs advanced ih =>
    obtain ⟨new,course⟩ := ih undisturbed.earlier
    have sound := runs_sound (setup.append runs)
    have now : move.Schedules :=
      undisturbed.moves _ (List.mem_append_right _ (List.mem_singleton_self _))
    cases move with
    | createAccount | arm | abort | begin | call | resume | cancel | drop => cases now
    | setLockHold | setCommitDelay | pass =>
      cases Option.some.inj advanced
      exact ⟨new,course.waits (t := ⟨before,_,_⟩) rfl rfl rfl rfl rfl rfl⟩
    | launch plan =>
      cases Option.some.inj advanced
      have asked : plan ∈ launched (history ++ [⟨before,.launch plan,
          { before with jobs := before.jobs ++ [Job.start before.clock before.ledger plan] }⟩]) := by
        rw [launched_snoc]
        exact List.mem_append_right _ (List.mem_singleton_self _)
      have checked := Movement.check_eq_ok.mpr
        (undisturbed.valid _ (List.mem_map_of_mem asked))
      exact ⟨_,course.launches (undisturbed.plain plan asked).1 checked⟩
    | step i => exact course.steps_on idle sound undisturbed advanced

theorem runs_owned_since (setup : Runs {} past origin) (idle : origin.Idle)
    (runs : Runs origin history b) (moves : ∀ t ∈ history, t.move.Schedules) : b.Owned := by
  induction runs with
  | nil =>
    rintro tx ⟨t,found⟩
    rw [Ledger.tx?,idle.closed] at found
    cases found
  | @step history before move after runs advanced ih =>
    have owned := ih fun t member => moves t (List.mem_append_left _ member)
    have now := moves _ (List.mem_append_right _ (List.mem_singleton_self _))
    refine owned.advance (runs_sound (setup.append runs)) ?_ advanced
    cases move <;> trivial

-- Somebody can always go on without giving up, if need be after some time.
theorem OnCourse.goes_on {new : List Job} (course : OnCourse origin history b new)
    (idle : origin.Idle) (sound : b.Sound) (asking : ∀ j ∈ b.jobs, j.Asks)
    (fitting : ∀ j ∈ b.jobs, j.Fits) (owned : b.Owned) (somebody : ∃ i, b.Unfinished i) :
    ∃ i ms mid b', b.advance (.pass ms) = some mid ∧ mid.advance (.step i) = some b' ∧
      Turn.expires ⟨mid,.step i,b'⟩ = false := by
  obtain ⟨i,unfinished,free⟩ := Bank.free_of_unfinished sound asking owned somebody
  obtain ⟨j,found,unsettled⟩ := Option.map_eq_some_iff.mp unfinished
  have member := List.mem_of_getElem? found
  have onCourse := course.course j
    (List.mem_of_getElem? (course.found_new idle found unsettled).1)
  obtain ⟨ms,steps,patient⟩ := Job.goes_on_patiently unsettled onCourse (asking j member)
    (fitting j member) (Bank.granted_of_free found free) b.clock
  obtain ⟨⟨l',j'⟩,stepped⟩ := Option.ne_none_iff_exists'.mp steps
  let mid : Bank := { b with clock := b.clock + ms }
  refine ⟨i,ms,mid,{ mid with ledger := l', jobs := b.jobs.set i j' },rfl,?_,?_⟩
  · simp only [Bank.advance,Bank.updateJob,mid,found,stepped,Option.map_some]
  · simpa [Turn.expires,mid,found] using patient

namespace OnCourse
variable {new : List Job}

theorem posted (course : OnCourse origin history b new) (finished : ∀ i, ¬b.Unfinished i) :
    ((postings history).map Posting.movement).Perm (movements history) := by
  have none : unposted new = [] := by
    unfold unposted
    rw [List.map_eq_nil_iff,List.filter_eq_nil_iff]
    intro j member
    have listed : j ∈ b.jobs := course.jobs ▸ List.mem_append_right _ member
    obtain ⟨i,found⟩ := List.mem_iff_getElem?.mp listed
    have isOver : j.stage.settled = true := by
      by_contra unsettled
      exact finished i (by simpa [Bank.Unfinished,found] using unsettled)
    cases stage : j.stage with
    | running | resting =>
      rw [stage] at isOver
      cases isOver
    | finished | cancelled => simp [Stage.call?]
  have order := course.order
  rwa [none,List.append_nil] at order

theorem balances (course : OnCourse origin history b new) (finished : ∀ i, ¬b.Unfinished i) :
    b.ledger.balances = origin.ledger.balances.map fun (id,balance) =>
      (id,balance - flow Movement.source (movements history) id +
        flow Movement.destination (movements history) id) := by
  have posted := course.posted finished
  rw [Ledger.balances_books,course.gained.accounts,Ledger.balances_books,List.map_map,List.map_map]
  refine List.map_congr_left fun a _ => ?_
  simp only [Function.comp_apply,moved_eq,flow_perm posted,Prod.mk.injEq,true_and]
  omega

end OnCourse

theorem schedules_agree (setup : Runs {} past origin) (idle : origin.Idle)
    (runs : Runs origin history b) (undisturbed : Undisturbed origin history) :
    -- No schedule goes on for ever,
    stepsOf history ≤ 32 * (launched history).length ∧
    -- and none gets stuck before all jobs have finished.
    ((∃ i, b.Unfinished i) → ∃ i ms mid b', b.advance (.pass ms) = some mid ∧
      mid.advance (.step i) = some b' ∧ Turn.expires ⟨mid,.step i,b'⟩ = false) ∧
    -- Every job that finishes has succeeded.
    (∀ i j, origin.jobs.length ≤ i → b.jobs[i]? = some j → j.stage.settled = true →
      ∃ r time, j.stage = .finished (.ok r) time) ∧
    -- When all have, there is one transfer and there are two entries for each, and every balance has
    -- changed by all that left the account and all that came to it.
    ((∀ i, ¬b.Unfinished i) →
      (∃ done, b.ledger.transfers = origin.ledger.transfers ++ done ∧
        (done.map Transfer.movement).Perm (movements history)) ∧
      (∃ done, b.ledger.entries = origin.ledger.entries ++ done ∧
        (done.map fun e => (e.account,e.amount)).Perm
          ((movements history).flatMap Movement.lines)) ∧
      b.ledger.balances = (origin.ledger.balances.map fun (id,balance) =>
        (id,balance - flow Movement.source (movements history) id +
          flow Movement.destination (movements history) id)) ∧
      -- So the balances are the same whatever the schedule was.
      ∀ history' b', Runs origin history' b' → Undisturbed origin history' →
        (launched history').Perm (launched history) → (∀ i, ¬b'.Unfinished i) →
        b'.ledger.balances = b.ledger.balances) := by
  have full := setup.append runs
  obtain ⟨new,course⟩ := runs_onCourse setup idle runs undisturbed
  refine ⟨Nat.le_trans (Nat.le_add_right _ _) course.steps,?_,?_,?_⟩
  · exact course.goes_on idle (runs_sound full) (runs_asks full) (runs_fits full)
      (runs_owned_since setup idle runs undisturbed.moves)
  · intro i j later found settled
    rw [course.jobs,List.getElem?_append_right later] at found
    have onCourse := course.course j (List.mem_of_getElem? found)
    cases stage : j.stage with
    | running | resting =>
      rw [stage] at settled
      cases settled
    | cancelled =>
      rw [stage] at onCourse
      cases onCourse
    | finished outcome time =>
      rw [stage] at onCourse
      cases outcome with
      | error e => cases onCourse
      | ok r => exact ⟨r,time,rfl⟩
  · intro finished
    have posted := course.posted finished
    refine ⟨?_,?_,course.balances finished,?_⟩
    · obtain ⟨done,transfers,same⟩ := course.gained.transfers
      exact ⟨done,transfers,same ▸ posted⟩
    · obtain ⟨done,entries,same⟩ := course.gained.entries
      refine ⟨done,entries,?_⟩
      rw [same,← List.flatMap_map]
      exact posted.flatMap_right _
    · intro history' b' runs' undisturbed' alike finished'
      obtain ⟨new',course'⟩ := runs_onCourse setup idle runs' undisturbed'
      have moved := alike.map JobPlan.movement
      rw [course'.balances finished',course.balances finished]
      refine List.map_congr_left fun pair _ => ?_
      simp only [movements,flow_perm moved]

-- Four transfers on accounts at the ends of the range, with a delay after each row and before each
-- commit. Three of them queue for the first account, and all four need the second.
def cramped : List Move :=
  [.createAccount "alice" .eur 1000,.createAccount "bob" .eur 9223372036854775777,
    .createAccount "carol" .eur (-9223372036854775803),.setLockHold (some (.ofMillis 10)),
    .setCommitDelay (some (.ofMillis 5))]

def crowded : List Move :=
  [.launch { request := { source := 1, destination := 2, amount := 10 } },
    .launch { request := { source := 2, destination := 1, amount := 20 } },
    .launch { request := { source := 3, destination := 2, amount := 5 } },
    .launch { request := { source := 1, destination := 2, amount := 15 } },
    .step 0,.step 1,.step 2,.step 3,.step 0,.step 1,.step 2,.step 3,.step 0,.step 1,.step 2,.step 3,
    .step 0,.step 1,.step 2,.step 3,.step 0,.step 1,.step 2,.step 3,.pass 10,.step 0,.step 2,.step 0,
    .step 2,.pass 10,.step 2,.step 2,.pass 5,.step 2,.step 0,.step 2,.pass 10,.step 0,.step 0,
    .pass 5,.step 0,.step 1,.step 0,.pass 10,.step 1,.step 1,.pass 10,.step 1,.step 1,.pass 5,
    .step 1,.step 3,.step 1,.pass 10,.step 3,.step 3,.pass 10,.step 3,.step 3,.pass 5,.step 3,
    .step 3]

theorem cramped_ends : (Bank.replay {} cramped).isSome = true := by decide +kernel

def crampedRun : List Turn × Bank := (Bank.replay {} cramped).get cramped_ends

theorem crowded_ends : (Bank.replay crampedRun.2 crowded).isSome = true := by decide +kernel

def crowdedRun : List Turn × Bank := (Bank.replay crampedRun.2 crowded).get crowded_ends

theorem schedules_agree_crowded :
    Runs {} crampedRun.1 crampedRun.2 ∧ crampedRun.2.Idle ∧
      Runs crampedRun.2 crowdedRun.1 crowdedRun.2 ∧ Undisturbed crampedRun.2 crowdedRun.1 ∧
      stepsOf crowdedRun.1 ≤ 128 ∧ (∀ i, ¬crowdedRun.2.Unfinished i) ∧
      crowdedRun.2.ledger.balances =
        [(1,995),(2,9223372036854775787),(3,-9223372036854775808)] := by
  have setup : Runs {} crampedRun.1 crampedRun.2 := runs_of_ends cramped_ends
  have runs : Runs crampedRun.2 crowdedRun.1 crowdedRun.2 := runs_of_ends crowded_ends
  have idle : crampedRun.2.Idle := by
    refine ⟨?_,?_,?_⟩ <;> decide +kernel
  have undisturbed : Undisturbed crampedRun.2 crowdedRun.1 := by
    refine ⟨?_,?_,?_,?_,?_,?_⟩ <;> decide +kernel
  have finished : ∀ i, ¬crowdedRun.2.Unfinished i := by
    intro i unfinished
    obtain ⟨j,found,unsettled⟩ := Option.map_eq_some_iff.mp unfinished
    have isOver : ∀ j ∈ crowdedRun.2.jobs, j.stage.settled = true := by decide +kernel
    rw [isOver j (List.mem_of_getElem? found)] at unsettled
    cases unsettled
  obtain ⟨finite,_,_,agree⟩ := schedules_agree setup idle runs undisturbed
  obtain ⟨_,_,balances,_⟩ := agree finished
  have four : (launched crowdedRun.1).length = 4 := by decide +kernel
  rw [four] at finite
  refine ⟨setup,idle,runs,undisturbed,finite,finished,?_⟩
  rw [balances]
  decide +kernel

end DoubleEntry
