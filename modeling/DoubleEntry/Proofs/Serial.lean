import DoubleEntry.Proofs.Postings

namespace DoubleEntry

-- A plain ledger: nothing but balances.
def Plain := AccountId → Int

namespace Plain

def add (p : Plain) (id : AccountId) (delta : Int) : Plain :=
  fun seen => if seen = id then p seen + delta else p seen

def transfer (p : Plain) (m : Movement) : Plain :=
  (p.add m.source (-m.amount)).add m.destination m.amount

def run (p : Plain) (ms : List Movement) : Plain := ms.foldl transfer p

def opening (accounts : List Account) : Plain :=
  fun id => ((accounts.find? (·.id = id)).map Account.balance).getD 0

theorem add_apply (p : Plain) (id : AccountId) (delta : Int) (seen : AccountId) :
    p.add id delta seen = p seen + if seen = id then delta else 0 := by
  unfold add
  split
  · rfl
  · exact (Int.add_zero _).symm

theorem transfer_apply (p : Plain) (m : Movement) (id : AccountId) :
    p.transfer m id = p id + m.change id := by
  rw [transfer,add_apply,add_apply,Int.add_assoc,Movement.change]

theorem run_apply (p : Plain) (posted : List Posting) (id : AccountId) :
    p.run (posted.map Posting.movement) id = p id + moved posted id := by
  induction posted generalizing p with
  | nil => exact (Int.add_zero _).symm
  | cons q rest ih =>
    change (p.transfer q.movement).run (rest.map Posting.movement) id =
      p id + (q.movement.change id + moved rest id)
    rw [ih,transfer_apply,Int.add_assoc]

theorem opening_of_mem {accounts : List Account} {o : Account}
    (distinct : (accounts.map Account.id).Nodup) (member : o ∈ accounts) :
    opening accounts o.id = o.balance := by
  unfold opening
  induction accounts with
  | nil => cases member
  | cons first rest ih =>
    rw [List.map_cons,List.nodup_cons] at distinct
    rcases List.mem_cons.mp member with rfl | later
    · simp
    · have other : first.id ≠ o.id := fun same => distinct.1 (same ▸ List.mem_map_of_mem later)
      simpa [other] using ih distinct.2 later

theorem opening_append {accounts : List Account} {id : AccountId}
    (member : id ∈ accounts.map Account.id) (more : List Account) :
    opening (accounts ++ more) id = opening accounts id := by
  obtain ⟨o,listed,same⟩ := List.mem_map.mp member
  have found : (accounts.find? (·.id = id)).isSome = true :=
    List.find?_isSome.mpr ⟨o,listed,decide_eq_true same⟩
  unfold opening
  rw [List.find?_append,Option.or_of_isSome found]

end Plain

def Posting.call (p : Posting) : Nat × Nat := (p.job,p.attempt)

def serial (history : List Turn) (posted : List Posting) : Plain :=
  (Plain.opening (openings history)).run (posted.map Posting.movement)

section Balances
variable {history : List Turn} {b : Bank}

theorem Posted.balance_eq_serial (posted : Posted history b) (sound : b.Sound)
    {id : AccountId} {a : Account} (found : b.ledger.account? id = some a) :
    a.balance = serial history (postings history) id := by
  have listed := Ledger.mem_balances_of_account? found
  rw [posted.balances] at listed
  obtain ⟨o,opened,same⟩ := List.mem_map.mp listed
  obtain ⟨rfl,balance⟩ := Prod.mk.inj same
  rw [serial,Plain.run_apply,Plain.opening_of_mem (posted.distinct sound) opened]
  exact balance.symm

-- The accounts opened later make no difference to the earlier ones.
theorem Posted.serial_append (posted : Posted history b) {id : AccountId} {a : Account}
    (found : b.ledger.account? id = some a) (later : List Turn) (ps : List Posting) :
    serial (history ++ later) ps id = serial history ps id := by
  have known : id ∈ (openings history).map Account.id :=
    posted.ids ▸ List.mem_map_of_mem (Ledger.mem_balances_of_account? found)
  rw [serial,serial,Plain.run_apply,Plain.run_apply,openings_append,Plain.opening_append known]

theorem runs_serial {earlier later : List Turn} (runs : Runs {} earlier b)
    (transferring : Transferring (earlier ++ later)) {id : AccountId} {a : Account}
    (found : b.ledger.account? id = some a) :
    a.balance = serial (earlier ++ later) (postings earlier) id := by
  have posted := runs_posted runs transferring.earlier
  rw [posted.serial_append found]
  exact posted.balance_eq_serial (runs_sound runs) found

end Balances

theorem runs_calls (runs : Runs {} history b) : ((postings history).map Posting.call).Nodup := by
  refine (runs.invariant (P := fun history _ => ((postings history).map Posting.call).Nodup)
    List.nodup_nil ?_).2
  intro history before move after runs _ _ distinct
  rw [postings_snoc]
  cases posting : (Turn.mk before move after).posting? with
  | none => simpa using distinct
  | some p =>
    -- A call that can still post has only had turns that left the books alone.
    have here := (Turn.call?_eq_some.mp (Turn.call?_of_posting posting).1).2
    have silent := effects_of_goes ((runs_callHistory runs p.job p.attempt).goes here)
    have fresh : ∀ q ∈ postings history, q.call ≠ p.call := by
      intro q member same
      obtain ⟨t,taken,posting'⟩ := List.mem_filterMap.mp member
      obtain ⟨call,changes⟩ := Turn.call?_of_posting posting'
      obtain ⟨job,attempt⟩ := Prod.mk.inj same
      rw [job,attempt] at call
      have effect := mem_effects taken call changes
      rw [effects,silent] at effect
      cases effect
    rw [List.map_append,List.nodup_append]
    refine ⟨distinct,by simp,?_⟩
    intro c earlier c' last
    obtain ⟨q,member,rfl⟩ := List.mem_map.mp earlier
    cases List.mem_singleton.mp last
    exact fresh q member

section Requests
variable {before after : Bank} {move : Move} {i : Nat} {j : Job}

theorem Bank.Concerns.plan (concerns : before.Concerns i move after)
    (found : before.jobs[i]? = some j) : ∃ j', after.jobs[i]? = some j' ∧ j'.plan = j.plan := by
  cases concerns with
  | passes _ same => exact ⟨j,same.trans found,rfl⟩
  | launches _ absent =>
    rw [absent] at found
    cases found
  | aborts _ found' _ found'' =>
    cases Option.some.inj (found.symm.trans found')
    exact ⟨_,found'',rfl⟩
  | steps _ found' found'' moves =>
    cases Option.some.inj (found.symm.trans found')
    exact ⟨_,found'',moves.plan⟩

theorem runs_requested (runs : Runs {} history b) :
    ∀ p ∈ postings history, ∃ j, b.jobs[p.job]? = some j ∧ j.plan.movement = p.movement := by
  refine (runs.invariant (P := fun history b =>
    ∀ p ∈ postings history, ∃ j, b.jobs[p.job]? = some j ∧ j.plan.movement = p.movement)
    (by simp [postings]) ?_).2
  intro history before move after _ _ advances earlier p member
  have asked : ∃ j, before.jobs[p.job]? = some j ∧ j.plan.movement = p.movement := by
    rw [postings_snoc,List.mem_append] at member
    rcases member with old | new
    · exact earlier p old
    · obtain ⟨_,_,j,found,_,same⟩ := Turn.posting?_eq_some.mp (Option.mem_toList.mp new)
      exact ⟨j,found,same⟩
  obtain ⟨j,found,same⟩ := asked
  obtain ⟨j',found',plan⟩ := (advances.concerns p.job).plan found
  exact ⟨j',found',(congrArg JobPlan.movement plan).trans same⟩

end Requests

def Stage.Succeeded (r : Receipt) : Stage → Prop
  | running _ _ _ (.ended outcome) _ | finished outcome _ => outcome = .ok r
  | _ => False

theorem Stage.not_succeeded_attempt (plan : JobPlan) (n : Nat) (r : Receipt) :
    ¬(Stage.attempt plan n).Succeeded r := by
  unfold Stage.attempt Phase.start
  split <;> rintro ⟨⟩

theorem Stage.Follows.succeeded {plan : JobPlan} {stage stage' : Stage} {r : Receipt}
    (follows : Follows plan stage stage') (succeeded : stage'.Succeeded r) :
    stage.Succeeded r := by
  cases follows with
  | rests => cases succeeded
  | finishes => exact succeeded
  | wakes => exact absurd succeeded (not_succeeded_attempt plan _ r)
  | @goesOn n d d' tx tx' p p' w w' _ unanswered =>
    cases p' with
    | ended outcome => exact absurd (congrArg Phase.ended succeeded) (unanswered r)
    | _ => cases succeeded

theorem runs_returned (runs : Runs {} history b) (i : Nat) :
    ∀ j r, b.jobs[i]? = some j → j.stage.Succeeded r → ∃ a, Answered history i a (.ok r) := by
  refine (runs.invariant (P := fun history b =>
    ∀ j r, b.jobs[i]? = some j → j.stage.Succeeded r → ∃ a, Answered history i a (.ok r))
    (by simp) ?_).2
  intro history before move after _ _ advances earlier j' r found' succeeded
  have still {j : Job} (found : before.jobs[i]? = some j) (succeeded : j.stage.Succeeded r) :
      ∃ a, Answered (history ++ [⟨before,move,after⟩]) i a (.ok r) := by
    obtain ⟨a,t,member,answers⟩ := earlier j r found succeeded
    exact ⟨a,t,mem_callTurns_append member _,answers⟩
  cases advances.concerns i with
  | passes _ same => exact still (same.symm.trans found') succeeded
  | launches _ _ found'' =>
    cases Option.some.inj (found'.symm.trans found'')
    rcases Job.start_stage before.clock before.ledger _ with stage | ⟨e,stage⟩
    · rw [stage] at succeeded
      exact absurd succeeded (Stage.not_succeeded_attempt _ 0 r)
    · rw [stage] at succeeded
      cases succeeded
  | aborts _ _ _ found'' =>
    cases Option.some.inj (found'.symm.trans found'')
    cases succeeded
  | steps here found found'' moves =>
    cases Option.some.inj (found'.symm.trans found'')
    cases moves.does with
    | quietly _ follows => exact still found (follows.succeeded succeeded)
    | unacknowledged _ _ _ answered =>
      rw [answered] at succeeded
      cases succeeded
    | @writes n _ _ _ _ _ stage _ _ answered =>
      subst here
      rw [answered] at succeeded
      cases succeeded
      have call : before.call? i = some n := Bank.call?_eq_some.mpr ⟨_,found,by rw [stage]; rfl⟩
      refine ⟨n,⟨before,.step i,after⟩,?_,_,_,_,_,found'',answered⟩
      exact mem_callTurns (by simp) (Turn.call?_eq_some.mpr ⟨rfl,call⟩)

section Returned
variable {history : List Turn} {b : Bank} {r : Receipt}

theorem posting_of_answered {i a : Nat} (runs : Runs {} history b)
    (answered : Answered history i a (.ok r)) :
    ∃ p ∈ postings history, p.call = (i,a) := by
  obtain ⟨t,j,single,stays,_⟩ := (runs_writeOutcome runs i a).of_ok answered
  obtain ⟨turn,changes⟩ := List.mem_filter.mp (single ▸ List.mem_singleton_self t)
  obtain ⟨taken,call⟩ := List.mem_filter.mp turn
  obtain ⟨_,here⟩ := Turn.call?_eq_some.mp (of_decide_eq_true call)
  obtain ⟨j',found',inside⟩ := Bank.call?_eq_some.mp here
  refine ⟨⟨i,a,j'.plan.movement⟩,List.mem_filterMap.mpr ⟨t,taken,?_⟩,rfl⟩
  exact Turn.posting?_eq_some.mpr ⟨stays,of_decide_eq_true changes,j',found',inside,rfl⟩

theorem turn_of_posting {earlier later : List Posting} {p : Posting}
    (split : postings history = earlier ++ p :: later) :
    ∃ before t after, history = before ++ t :: after ∧ postings before = earlier ∧
      t.posting? = some p := by
  obtain ⟨before,rest,same,rfl,here⟩ := List.filterMap_eq_append_iff.mp split
  obtain ⟨idle,t,after,rfl,silent,posting,_⟩ := List.filterMap_eq_cons_iff.mp here
  refine ⟨before ++ idle,t,after,by simp [same],?_,posting⟩
  have nothing : postings idle = [] := List.filterMap_eq_nil_iff.mpr silent
  rw [postings_append,nothing,List.append_nil]
  rfl

theorem balances_of_answered {earlier later : List Posting} {p : Posting}
    (runs : Runs {} history b) (transferring : Transferring history)
    (split : postings history = earlier ++ p :: later)
    (answered : Answered history p.job p.attempt (.ok r)) :
    r.source.balance = serial history (earlier ++ [p]) p.movement.source ∧
      r.destination.balance = serial history (earlier ++ [p]) p.movement.destination := by
  obtain ⟨before,t,after,rfl,rfl,posting⟩ := turn_of_posting split
  obtain ⟨t',j,single,_,found,writes⟩ := (runs_writeOutcome runs p.job p.attempt).of_ok answered
  -- The turn of the posting is the one turn in which the call has changed anything.
  obtain ⟨call,changes⟩ := Turn.call?_of_posting posting
  have effect : t ∈ effects (before ++ t :: after) p.job p.attempt :=
    mem_effects (by simp) call changes
  rw [single] at effect
  cases List.mem_singleton.mp effect
  obtain ⟨_,_,j',found',_,same⟩ := Turn.posting?_eq_some.mp posting
  cases Option.some.inj (found.symm.trans found')
  rw [same] at writes
  have whole : before ++ t :: after = (before ++ [t]) ++ after := by simp
  have posted : postings (before ++ [t]) = postings before ++ [p] := by
    rw [postings_snoc,posting]
    rfl
  have reached := (runs.split rfl).2
  rw [whole] at transferring ⊢
  rw [← posted]
  exact ⟨runs_serial reached transferring writes.source,
    runs_serial reached transferring writes.destination⟩

end Returned

def Movement.Touches (m : Movement) (id : AccountId) : Prop := id = m.source ∨ id = m.destination

instance (m : Movement) (id : AccountId) : Decidable (m.Touches id) := by
  unfold Movement.Touches
  infer_instance

theorem Movement.change_of_not_touches {m : Movement} {id : AccountId} (untouched : ¬m.Touches id) :
    m.change id = 0 := by
  obtain ⟨source,destination⟩ := not_or.mp untouched
  rw [change,if_neg source,if_neg destination]
  rfl

theorem Movement.change_source {m : Movement} (different : m.source ≠ m.destination) :
    m.change m.source = -m.amount := by
  rw [change,if_pos rfl,if_neg different,Int.add_zero]

def touching (posted : List Posting) (id : AccountId) : List Posting :=
  posted.filter fun p => p.movement.Touches id

-- Where one and the same movement is all that touches its source, the source goes down by the amount
-- once for each of them.
theorem ladder {m : Movement} (shown : Posting → Int) (posted : List Posting) (start : Plain)
    (checked : ∀ p ∈ posted, p.movement.check = .ok ())
    (alike : ∀ p ∈ posted, p.movement.Touches m.source → p.movement = m)
    (shows : ∀ earlier p later, posted = earlier ++ p :: later → p.movement.Touches m.source →
      shown p = start.run ((earlier ++ [p]).map Posting.movement) m.source) :
    (touching posted m.source).map shown =
      (List.range (touching posted m.source).length).map fun k : Nat =>
        start m.source - ((k : Int) + 1) * m.amount := by
  induction posted generalizing start with
  | nil => rfl
  | cons p rest ih =>
    have onward := ih (start.transfer p.movement)
      (fun q member => checked q (List.mem_cons_of_mem p member))
      (fun q member => alike q (List.mem_cons_of_mem p member))
      (fun earlier q later split => shows (p :: earlier) q later (congrArg (p :: ·) split))
    by_cases touched : p.movement.Touches m.source
    · have listed : touching (p :: rest) m.source = p :: touching rest m.source := by
        simp [touching,touched]
      have same := alike p List.mem_cons_self touched
      have different := (Movement.check_eq_ok.mp (same ▸ checked p List.mem_cons_self)).1
      have lower : start.transfer p.movement m.source = start m.source - m.amount := by
        rw [Plain.transfer_apply,same,Movement.change_source different]
        rfl
      have first : shown p = start.transfer p.movement m.source := shows [] p rest rfl touched
      rw [listed,List.map_cons,List.length_cons,List.range_succ_eq_map,List.map_cons,List.map_map,
        onward,first,lower]
      congr 1
      · simp
      · apply List.map_congr_left
        intro k _
        have step := Int.add_mul ((k : Int) + 1) 1 m.amount
        simp only [Function.comp,Nat.succ_eq_add_one,Int.natCast_add,Int.cast_ofNat_Int]
        omega
    · have listed : touching (p :: rest) m.source = touching rest m.source := by
        simp [touching,touched]
      have level : start.transfer p.movement m.source = start m.source := by
        rw [Plain.transfer_apply,Movement.change_of_not_touches touched,Int.add_zero]
      rw [listed,onward,level]

-- The same movement, called for by several jobs at once: the balances they return go down by the
-- amount from one to the next, each value once.
theorem contention {history : List Turn} {b : Bank} (runs : Runs {} history b)
    (transferring : Transferring history) (m : Movement) (calls : List (Nat × Nat))
    (returned : Nat × Nat → Receipt) (distinct : calls.Nodup)
    (answered : ∀ c ∈ calls, Answered history c.1 c.2 (.ok (returned c)) ∧
      ∃ j, b.jobs[c.1]? = some j ∧ j.plan.movement = m)
    (alone : ∀ p ∈ postings history, p.movement.Touches m.source → p.call ∈ calls) :
    (calls.map fun c => (returned c).source.balance).Perm
      ((List.range calls.length).map fun k : Nat =>
        Plain.opening (openings history) m.source - ((k : Int) + 1) * m.amount) := by
  have asked : ∀ p ∈ postings history, p.call ∈ calls → p.movement = m := by
    intro p member called
    obtain ⟨_,j,found,same⟩ := answered p.call called
    obtain ⟨j',found',same'⟩ := runs_requested runs p member
    cases Option.some.inj (found.symm.trans found')
    exact same'.symm.trans same
  have order : calls.Perm ((touching (postings history) m.source).map Posting.call) := by
    refine (List.perm_ext_iff_of_nodup distinct ?_).mpr ?_
    · exact (List.filter_sublist.map Posting.call).nodup (runs_calls runs)
    · intro c
      constructor
      · intro called
        obtain ⟨p,member,same⟩ := posting_of_answered runs (answered c called).1
        obtain rfl : p.call = c := same
        have touched : p.movement.Touches m.source := .inl (asked p member called ▸ rfl)
        exact List.mem_map_of_mem (List.mem_filter.mpr ⟨member,decide_eq_true touched⟩)
      · intro listed
        obtain ⟨p,member,rfl⟩ := List.mem_map.mp listed
        obtain ⟨posted,touched⟩ := List.mem_filter.mp member
        exact alone p posted (of_decide_eq_true touched)
  have shows : ∀ earlier p later, postings history = earlier ++ p :: later →
      p.movement.Touches m.source →
      (returned p.call).source.balance = serial history (earlier ++ [p]) m.source := by
    intro earlier p later split touched
    have member : p ∈ postings history := by simp [split]
    have called := alone p member touched
    have right := balances_of_answered runs transferring split (answered p.call called).1
    rw [asked p member called] at right
    exact right.1
  have steps := ladder (fun p => (returned p.call).source.balance) (postings history)
    (Plain.opening (openings history)) (runs_posted runs transferring).checked
    (fun p member touched => asked p member (alone p member touched)) shows
  rw [order.length_eq,List.length_map,← steps]
  exact (order.map fun c => (returned c).source.balance).trans (.of_eq List.map_map)

theorem transfers_serialisable (runs : Runs {} history b) (transferring : Transferring history) :
    -- The commits of the ledger, each made by one call and for what its job was asked.
    b.ledger.transfers.map Transfer.movement = (postings history).map Posting.movement ∧
    ((postings history).map Posting.call).Nodup ∧
    (∀ p ∈ postings history, ∃ j, b.jobs[p.job]? = some j ∧ j.plan.movement = p.movement) ∧
    -- In every state on the way the balances are what the commits so far make of the opening ones.
    (∀ earlier later b', history = earlier ++ later → Runs {} earlier b' → ∀ id a,
      b'.ledger.account? id = some a → a.balance = serial history (postings earlier) id) ∧
    -- What was returned is what stood there right after the commit.
    (∀ i a r, Answered history i a (.ok r) → ∃ earlier p later,
      postings history = earlier ++ p :: later ∧ p.call = (i,a) ∧
      r.source.balance = serial history (earlier ++ [p]) p.movement.source ∧
      r.destination.balance = serial history (earlier ++ [p]) p.movement.destination) ∧
    (∀ i r, b.receipt? i = some r → ∃ a, Answered history i a (.ok r)) ∧
    -- The same movement called for by several jobs: each gets a rung of the ladder of its own.
    ∀ (m : Movement) (calls : List (Nat × Nat)) (returned : Nat × Nat → Receipt), calls.Nodup →
      (∀ c ∈ calls, Answered history c.1 c.2 (.ok (returned c)) ∧
        ∃ j, b.jobs[c.1]? = some j ∧ j.plan.movement = m) →
      (∀ p ∈ postings history, p.movement.Touches m.source → p.call ∈ calls) →
      (calls.map fun c => (returned c).source.balance).Perm
        ((List.range calls.length).map fun k : Nat =>
          Plain.opening (openings history) m.source - ((k : Int) + 1) * m.amount) := by
  refine ⟨(runs_posted runs transferring).transfers,runs_calls runs,runs_requested runs,?_,?_,?_,
    contention runs transferring⟩
  · rintro earlier later b' rfl before id a found
    exact runs_serial before transferring found
  · intro i a r answered
    obtain ⟨p,member,same⟩ := posting_of_answered runs answered
    obtain ⟨earlier,later,split⟩ := List.append_of_mem member
    obtain ⟨rfl,rfl⟩ := Prod.mk.inj same
    exact ⟨earlier,p,later,split,same,balances_of_answered runs transferring split answered⟩
  · intro i r returned
    obtain ⟨j,found,succeeded⟩ := Option.bind_eq_some_iff.mp returned
    obtain ⟨time,stage⟩ := Stage.of_receipt? succeeded
    exact runs_returned runs i j r found (by rw [stage]; rfl)

-- Two transfers of 70 at once out of one account that was opened with 300.
theorem transfers_serialisable_contended :
    Runs {} contendedRun.1 contendedRun.2 ∧ Transferring contendedRun.1 ∧
      ∃ r r', Answered contendedRun.1 4 0 (.ok r) ∧ Answered contendedRun.1 5 0 (.ok r') ∧
        [r.source.balance,r'.source.balance].Perm [230,160] := by
  have runs := runs_contended
  have transferring : Transferring contendedRun.1 := by
    unfold Transferring
    decide +kernel
  obtain ⟨_,_,_,_,placed,answered,rungs⟩ := transfers_serialisable runs transferring
  have first : ∀ p ∈ postings contendedRun.1, p.job = 4 ∨ p.job = 5 → p.attempt = 0 := by
    decide +kernel
  have returned {i : Nat} (job : i = 4 ∨ i = 5)
      (some : (contendedRun.2.receipt? i).isSome = true) :
      ∃ r, Answered contendedRun.1 i 0 (.ok r) := by
    obtain ⟨r,receipt⟩ := Option.isSome_iff_exists.mp some
    obtain ⟨a,given⟩ := answered i r receipt
    obtain ⟨earlier,p,later,split,same,_⟩ := placed i a r given
    obtain ⟨rfl,rfl⟩ := Prod.mk.inj same
    have attempt := first p (by simp [split]) job
    exact ⟨r,attempt ▸ given⟩
  have plan {i : Nat} (asked : contendedRun.2.jobs[i]?.map (·.plan.movement) = some ⟨4,5,70⟩) :
      ∃ j, contendedRun.2.jobs[i]? = some j ∧ j.plan.movement = ⟨4,5,70⟩ :=
    Option.map_eq_some_iff.mp asked
  obtain ⟨r,four⟩ := returned (.inl rfl) (by decide +kernel)
  obtain ⟨r',five⟩ := returned (.inr rfl) (by decide +kernel)
  have perm := rungs ⟨4,5,70⟩ [(4,0),(5,0)] (fun c => if c = (4,0) then r else r') (by decide)
    (by simpa using ⟨⟨four,plan (by decide +kernel)⟩,five,plan (by decide +kernel)⟩)
    (by decide +kernel)
  have opened : Plain.opening (openings contendedRun.1) 4 = 300 := by decide +kernel
  refine ⟨runs,transferring,r,r',four,five,?_⟩
  simpa [List.range_succ,opened] using perm

end DoubleEntry
