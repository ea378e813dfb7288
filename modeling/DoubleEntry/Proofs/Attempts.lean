import DoubleEntry.Proofs.Dealings
import DoubleEntry.Proofs.Histories
import DoubleEntry.Proofs.Retries

namespace DoubleEntry

structure Attempt where
  log : List Dealing
  outcome : Outcome
  answered : Nat

def Attempt.calls (past : List Attempt) : List Call :=
  past.flatMap fun a => a.log.map Dealing.call

-- Attempts that have each been followed by another one, or by the rest before it.
inductive JobPlan.Past (plan : JobPlan) : List Attempt → Prop where
  | nothing : Past plan []
  | again {past : List Attempt} {a : Attempt} (earlier : Past plan past)
      (leads : Phase.Leads plan.movement plan.timeout a.log (.ended a.outcome))
      (repeated : Repeatable a.outcome ∧ past.length < plan.policy.maxRetries) :
      Past plan (past ++ [a])

def Phase.pending (m : Movement) (limit : Duration) (w : Option Wait) (p : Phase) : List Call :=
  match w,p.next m limit with
  | some _,.awaitBefore call _ => [call]
  | _,_ => []

-- What a job has done so far, as far as it has come.
inductive Job.Recounts (j : Job) : Prop where
  | running {n deadline : Nat} {tx : Option TxId} {p : Phase} {w : Option Wait}
      {past : List Attempt} {log : List Dealing} (stage : j.stage = .running n tx deadline p w)
      (number : past.length = n) (earlier : j.plan.Past past)
      (leads : Phase.Leads j.plan.movement j.plan.timeout log p)
      (calls : j.calls = Attempt.calls past ++ log.map Dealing.call ++
        p.pending j.plan.movement j.plan.timeout w)
  | resting {n time : Nat} {past : List Attempt} {a : Attempt} (stage : j.stage = .resting n time)
      (number : past.length + 1 = n) (earlier : j.plan.Past (past ++ [a]))
      (calls : j.calls = Attempt.calls (past ++ [a]))
      (rests : time = restUntil a.answered (j.plan.policy.backoff * n))
  | finished {outcome : Outcome} {time : Nat} {past : List Attempt} {log : List Dealing}
      (stage : j.stage = .finished outcome time) (earlier : j.plan.Past past)
      (leads : Phase.Leads j.plan.movement j.plan.timeout log (.ended outcome))
      (calls : j.calls = Attempt.calls past ++ log.map Dealing.call)
      (enough : Repeatable outcome → past.length = j.plan.policy.maxRetries)
  | refused {e : TransferError} {time : Nat} (stage : j.stage = .finished (.error e) time)
      (validated : j.plan.retry.isSome) (calls : j.calls = [])
  | cancelled (stage : j.stage = .cancelled)

theorem JobPlan.Past.within {plan : JobPlan} {past : List Attempt} (earlier : plan.Past past) :
    past.length ≤ plan.policy.maxRetries := by
  cases earlier with
  | nothing => exact Nat.zero_le _
  | again _ _ repeated => simpa using Nat.succ_le_of_lt repeated.2

theorem JobPlan.Past.attempt {plan : JobPlan} {past : List Attempt} (earlier : plan.Past past)
    {a : Attempt} (member : a ∈ past) : Repeatable a.outcome ∧
      Conducts plan.movement plan.timeout a.log a.outcome := by
  induction earlier with
  | nothing => cases member
  | again _ leads repeated ih =>
    rcases List.mem_append.mp member with before | last
    · exact ih before
    · cases List.mem_singleton.mp last
      exact ⟨repeated.1,leads.dealt.1⟩

theorem Attempt.calls_concat (past : List Attempt) (a : Attempt) :
    calls (past ++ [a]) = calls past ++ a.log.map Dealing.call := by
  simp [calls]

theorem Phase.pending_of_next {m : Movement} {limit : Duration} {p : Phase} {call : Call}
    {onward : Option (Except StoreError call.Row) → Phase}
    (next : p.next m limit = .awaitBefore call onward) (w : Wait) :
    p.pending m limit (some w) = [call] := by
  unfold pending
  split
  · rename_i call' onward' next'
    rw [next] at next'
    cases next'
    rfl
  · rename_i other
    exact absurd next (other w call onward rfl)

theorem Phase.pending_of_await {m : Movement} {limit : Duration} {p : Phase} {call : Call}
    {onward : Except StoreError call.Row → Phase} (next : p.next m limit = .await call onward)
    (w : Option Wait) : p.pending m limit w = [] := by
  unfold pending
  split
  · rename_i next'
    rw [next] at next'
    cases next'
  · rfl

theorem Phase.pending_ended (m : Movement) (limit : Duration) (outcome : Outcome)
    (w : Option Wait) : (ended outcome).pending m limit w = [] := by
  cases w <;> rfl

theorem Phase.pending_none (m : Movement) (limit : Duration) (p : Phase) :
    p.pending m limit none = [] := rfl

namespace Job
variable {j j' : Job} {l l' : Ledger} {now : Nat}

theorem recounts_attempt {n : Nat} {past : List Attempt} (stage : j.stage = .attempt j.plan n)
    (number : past.length = n) (earlier : j.plan.Past past) (calls : j.calls = Attempt.calls past) :
    j.Recounts :=
  .running stage number earlier .start (by rw [calls,Phase.pending_none]; simp)

theorem start_recounts (now : Nat) (l : Ledger) (plan : JobPlan) : (start now l plan).Recounts := by
  rcases start_stage now l plan with stage | ⟨e,stage⟩
  · exact recounts_attempt stage rfl .nothing rfl
  · refine .refused stage ?_ rfl
    change plan.retry.isSome = true
    cases retry : plan.retry with
    | some policy => rfl
    | none =>
      simp only [start,retry] at stage
      cases stage

theorem Recounts.of_running {n deadline : Nat} {tx : Option TxId} {p : Phase} {w : Option Wait}
    (recounts : j.Recounts) (stage : j.stage = .running n tx deadline p w) :
    ∃ past log, past.length = n ∧ j.plan.Past past ∧
      Phase.Leads j.plan.movement j.plan.timeout log p ∧
        j.calls = Attempt.calls past ++ log.map Dealing.call ++
          p.pending j.plan.movement j.plan.timeout w := by
  cases recounts with
  | resting stage' | finished stage' | refused stage' | cancelled stage' =>
    rw [stage] at stage'
    cases stage'
  | running stage' number earlier leads calls =>
    rw [stage] at stage'
    cases stage'
    exact ⟨_,_,number,earlier,leads,calls⟩

theorem Recounts.step (recounts : j.Recounts) (stepped : j.step now l = some (l',j')) :
    j'.Recounts := by
  cases step_sound stepped with
  | wake stage due =>
    cases recounts with
    | running stage' | finished stage' | refused stage' | cancelled stage' =>
      rw [stage] at stage'
      cases stage'
    | resting stage' number earlier calls =>
      rw [stage] at stage'
      cases stage'
      exact recounts_attempt rfl (by simpa using number) earlier calls
  | rest stage again =>
    obtain ⟨past,log,rfl,earlier,leads,calls⟩ := recounts.of_running stage
    rw [RetryPolicy.again?_eq] at again
    split at again
    · rename_i repeated
      cases Option.some.inj again
      refine .resting (a := ⟨log,_,now⟩) rfl rfl (earlier.again leads repeated) ?_ rfl
      simp [calls,Phase.pending_ended,Attempt.calls_concat]
    · cases again
  | finish stage enough =>
    obtain ⟨past,log,rfl,earlier,leads,calls⟩ := recounts.of_running stage
    rw [RetryPolicy.again?_eq] at enough
    split at enough
    · cases enough
    · rename_i last
      refine .finished rfl earlier leads ?_ ?_
      · simp [calls,Phase.pending_ended]
      · intro repeatable
        have within := earlier.within
        have spent : ¬past.length < j.plan.policy.maxRetries := fun more => last ⟨repeatable,more⟩
        exact Nat.le_antisymm within (Nat.not_lt.mp spent)
  | await stage next issued =>
    obtain ⟨past,log,number,earlier,leads,calls⟩ := recounts.of_running stage
    refine .running rfl number earlier (leads.await next _) ?_
    simp [calls,Phase.pending_none,Phase.pending_of_await next]
  | answered stage next issued =>
    obtain ⟨past,log,number,earlier,leads,calls⟩ := recounts.of_running stage
    refine .running rfl number earlier (leads.awaitBefore next _) ?_
    simp [calls,Phase.pending_none]
  | waits stage next issued =>
    obtain ⟨past,log,number,earlier,leads,calls⟩ := recounts.of_running stage
    refine .running rfl number earlier leads ?_
    simp [calls,Phase.pending_none,Phase.pending_of_next next]
  | resumed stage next resumed =>
    obtain ⟨past,log,number,earlier,leads,calls⟩ := recounts.of_running stage
    refine .running rfl number earlier (leads.awaitBefore next _) ?_
    simp [calls,Phase.pending_none,Phase.pending_of_next next]
  | waitsOn stage next resumed =>
    obtain ⟨past,log,number,earlier,leads,calls⟩ := recounts.of_running stage
    refine .running rfl number earlier leads ?_
    simp [calls,Phase.pending_of_next next]
  | late stage next waiting late =>
    obtain ⟨past,log,number,earlier,leads,calls⟩ := recounts.of_running stage
    refine .running rfl number earlier (leads.awaitBefore next none) ?_
    simp [calls,Phase.pending_none,Phase.pending_of_next next]

end Job

section Runs
variable {history : List Turn} {b : Bank} {i : Nat} {j : Job}

theorem runs_recount (runs : Runs {} history b) (found : b.jobs[i]? = some j) : j.Recounts := by
  refine (runs.kept (P := fun _ b => ∀ i j, b.jobs[i]? = some j → j.Recounts) (by simp) ?_).2 i j
    found
  intro history before move after _ sound advanced earlier i j found
  cases (sound.advances advanced).concerns i with
  | passes _ same => exact earlier i j (same ▸ found)
  | launches _ _ found' =>
    cases Option.some.inj (found'.symm.trans found)
    exact Job.start_recounts _ _ _
  | aborts _ _ _ found' =>
    cases Option.some.inj (found'.symm.trans found)
    exact .cancelled rfl
  | steps here there found' =>
    subst here
    obtain ⟨j₁,l',j',found₁,stepped,rfl⟩ := Bank.updateJob_eq_some advanced
    have bound := (List.getElem?_eq_some_iff.mp found₁).1
    rw [List.getElem?_set_self bound] at found
    cases Option.some.inj found
    exact (earlier i j₁ found₁).step stepped

-- The calls of a finished job are those of its attempts. All but the last were worth repeating, and
-- each took one of the ways that a transfer can take.
theorem finished_conducted {outcome : Outcome} {time : Nat} (runs : Runs {} history b)
    (found : b.jobs[i]? = some j) (stage : j.stage = .finished outcome time) :
    (j.plan.retry.isSome ∧ j.calls = [] ∧ ∃ e, outcome = .error e) ∨
    ∃ past log, past.length ≤ j.plan.policy.maxRetries ∧
      j.calls = Attempt.calls past ++ log.map Dealing.call ∧
      Conducts j.plan.movement j.plan.timeout log outcome ∧
      (∀ a ∈ past, Repeatable a.outcome ∧
        Conducts j.plan.movement j.plan.timeout a.log a.outcome) ∧
      (Repeatable outcome → past.length = j.plan.policy.maxRetries) := by
  cases runs_recount runs found with
  | running stage' | resting stage' | cancelled stage' =>
    rw [stage] at stage'
    cases stage'
  | refused stage' validated calls =>
    rw [stage] at stage'
    cases stage'
    exact .inl ⟨validated,calls,_,rfl⟩
  | finished stage' earlier leads calls enough =>
    rw [stage] at stage'
    cases stage'
    exact .inr ⟨_,_,earlier.within,calls,leads.dealt.1,fun a => earlier.attempt,enough⟩

theorem executed_conducted {outcome : Outcome} {time : Nat} (runs : Runs {} history b)
    (found : b.jobs[i]? = some j) (once : j.plan.retry = none)
    (stage : j.stage = .finished outcome time) :
    ∃ log, j.calls = log.map Dealing.call ∧
      Conducts j.plan.movement j.plan.timeout log outcome := by
  rcases finished_conducted runs found stage with ⟨validated,_⟩ | ⟨past,log,within,calls,course,_⟩
  · rw [once] at validated
    cases validated
  · have alone : past = [] := by simpa [JobPlan.policy,once] using within
    subst alone
    exact ⟨log,calls,course⟩

end Runs

end DoubleEntry
