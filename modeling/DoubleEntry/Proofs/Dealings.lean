import DoubleEntry.Proofs.Phases

namespace DoubleEntry

-- A call with its answer; `none` if it had none by the deadline.
structure Dealing where
  call : Call
  answer : Option (Except StoreError call.Row)

def Dealing.Done (d : Dealing) : Prop := ∃ row, d.answer = some (.ok row)

-- What a transfer has dealt with the store on its way to a phase. The answers are arbitrary; only a
-- call with a deadline can go without.
inductive Phase.Leads (m : Movement) (limit : Duration) : List Dealing → Phase → Prop where
  | start : Leads m limit [] (.start m)
  | await {log : List Dealing} {p : Phase} {call : Call}
      {onward : Except StoreError call.Row → Phase} (before : Leads m limit log p)
      (next : p.next m limit = .await call onward) (answer : Except StoreError call.Row) :
      Leads m limit (log ++ [⟨call,some answer⟩]) (onward answer)
  | awaitBefore {log : List Dealing} {p : Phase} {call : Call}
      {onward : Option (Except StoreError call.Row) → Phase} (before : Leads m limit log p)
      (next : p.next m limit = .awaitBefore call onward)
      (answer : Option (Except StoreError call.Row)) :
      Leads m limit (log ++ [⟨call,answer⟩]) (onward answer)

namespace Movement
variable {m : Movement}

-- The two accounts in the order in which their balances are changed.
def lower (m : Movement) : AccountId := min m.source m.destination
def higher (m : Movement) : AccountId := max m.source m.destination

theorem lower_cases (m : Movement) :
    m.lower = m.source ∧ m.higher = m.destination ∨
      m.lower = m.destination ∧ m.higher = m.source := by
  unfold lower higher
  rcases Int.le_total m.source m.destination with ordered | reversed
  · exact .inl ⟨Int.min_eq_left ordered,Int.max_eq_right ordered⟩
  · exact .inr ⟨Int.min_eq_right reversed,Int.max_eq_left reversed⟩

theorem lower_ne_higher (m : Movement) (different : m.source ≠ m.destination) :
    m.lower ≠ m.higher := by
  rcases m.lower_cases with ⟨first,second⟩ | ⟨first,second⟩ <;> rw [first,second]
  · exact different
  · exact Ne.symm different

theorem updates_eq (different : m.source ≠ m.destination) :
    m.updates = (⟨m.lower,m.change m.lower⟩,⟨m.higher,m.change m.higher⟩) := by
  unfold updates lockOrder lower higher change
  by_cases ordered : m.source ≤ m.destination
  · rw [Int.min_eq_left ordered,Int.max_eq_right ordered]
    simp [ordered,different,Ne.symm different]
  · have reversed : m.destination ≤ m.source := Int.le_of_not_le ordered
    rw [Int.min_eq_right reversed,Int.max_eq_left reversed]
    simp [ordered,different,Ne.symm different]

def steps (m : Movement) : List (TransferStep × Call) :=
  [(.insertTransfer,.insertTransfer m.source m.destination m.amount),
    (.insertDebitEntry,.insertEntry m.source (-m.amount)),
    (.insertCreditEntry,.insertEntry m.destination m.amount),
    (.updateBalance m.lower,.addToBalance m.lower (m.change m.lower)),
    (.updateBalance m.higher,.addToBalance m.higher (m.change m.higher))]

def sides (m : Movement) (first second : Account) : Account × Account :=
  if m.source < m.destination then (first,second) else (second,first)

theorem receipt_sides (different : m.source ≠ m.destination) {first : Account}
    (named : first.id = m.lower) (transfer : Transfer) (debit credit : Entry) (second : Account) :
    let r := Phase.receipt m transfer debit credit first second
    (r.source,r.destination) = m.sides first second := by
  unfold lower at named
  unfold Phase.receipt sides
  by_cases ordered : m.source < m.destination
  · rw [Int.min_eq_left (Int.le_of_lt ordered)] at named
    rw [if_pos named,if_pos ordered]
  · have reversed : m.destination ≤ m.source := Int.not_lt.mp ordered
    rw [Int.min_eq_right reversed] at named
    rw [if_neg fun same => different (same.symm.trans named),if_neg ordered]

def recorded (m : Movement) (t : Transfer) : Dealing :=
  ⟨.insertTransfer m.source m.destination m.amount,some (.ok t)⟩

def debited (m : Movement) (e : Entry) : Dealing :=
  ⟨.insertEntry m.source (-m.amount),some (.ok e)⟩

def credited (m : Movement) (e : Entry) : Dealing :=
  ⟨.insertEntry m.destination m.amount,some (.ok e)⟩

def updatedLower (m : Movement) (a : Account) : Dealing :=
  ⟨.addToBalance m.lower (m.change m.lower),some (.ok a)⟩

def updatedHigher (m : Movement) (a : Account) : Dealing :=
  ⟨.addToBalance m.higher (m.change m.higher),some (.ok a)⟩

end Movement

def Dealing.begun : Dealing := ⟨.begin,some (.ok ())⟩

def blame (limit : Duration) (step : TransferStep) :
    Option (Except StoreError α) → Option TransferError
  | some (.ok _) => none
  | some (.error e) => some (.store step e)
  | none => some (.timeout limit)

def acknowledged (limit : Duration) (r : Receipt) : Option (Except StoreError Unit) → Outcome
  | some (.ok ()) => .ok r
  | some (.error e) => .error (.store .commit e)
  | none => .error (.commitTimeout limit)

-- The transaction was opened, some of its calls succeeded, and the next one brought no row.
inductive Interrupted (m : Movement) (limit : Duration) : List Dealing → TransferError → Prop where
  | at {earlier later : List (TransferStep × Call)} {step : TransferStep} {call : Call}
      {done : List Dealing} {answer : Option (Except StoreError call.Row)} {e : TransferError}
      (steps : m.steps = earlier ++ (step,call) :: later)
      (made : done.map Dealing.call = earlier.map Prod.snd) (succeeded : ∀ d ∈ done, d.Done)
      (failed : blame limit step answer = some e) :
      Interrupted m limit (.begun :: done ++ [⟨call,answer⟩]) e

-- The ways that a transfer can take, each with its dealings and its outcome.
inductive Conducts (m : Movement) (limit : Duration) : List Dealing → Outcome → Prop where
  | sameAccount (same : m.source = m.destination) :
      Conducts m limit [] (.error (.sameAccount m.source))
  | invalidAmount (different : m.source ≠ m.destination) (nothing : m.amount ≤ 0) :
      Conducts m limit [] (.error (.invalidAmount m.amount))
  | unopened (different : m.source ≠ m.destination) (positive : 0 < m.amount) (e : StoreError) :
      Conducts m limit [⟨.begin,some (.error e)⟩] (.error (.store .begin e))
  | undone {log : List Dealing} {e : TransferError} (different : m.source ≠ m.destination)
      (positive : 0 < m.amount) (interrupted : Interrupted m limit log e)
      (reply : Except StoreError Unit) :
      Conducts m limit (log ++ [⟨.rollback,some reply⟩]) (.error e)
  | submitted {first second : Account} {r : Receipt} (different : m.source ≠ m.destination)
      (positive : 0 < m.amount)
      (accounts : first.id = m.lower → (r.source,r.destination) = m.sides first second)
      (answer : Option (Except StoreError Unit)) :
      Conducts m limit
        [.begun,m.recorded r.transfer,m.debited r.debit,m.credited r.credit,m.updatedLower first,
          m.updatedHigher second,⟨.commit,answer⟩] (acknowledged limit r answer)

theorem Conducts.refused (limit : Duration) {m : Movement} {e : TransferError}
    (failed : m.check = .error e) : Conducts m limit [] (.error e) := by
  unfold Movement.check at failed
  split at failed
  · rename_i same
    cases failed
    exact .sameAccount same
  · rename_i different
    split at failed
    · rename_i nothing
      cases failed
      exact .invalidAmount different nothing
    · cases failed

namespace Phase
variable {m : Movement} {limit : Duration} {log : List Dealing} {p : Phase} {call : Call}

theorem next_updatingFirst (different : m.source ≠ m.destination) (transfer : Transfer)
    (debit credit : Entry) :
    (updatingFirst transfer debit credit).next m limit =
      .awaitBefore (.addToBalance m.lower (m.change m.lower))
        (proceed limit (.updateBalance m.lower) (updatingSecond transfer debit credit)) := by
  let ask (u : Update) : Next := .awaitBefore (.addToBalance u.account u.delta)
    (proceed limit (.updateBalance u.account) (updatingSecond transfer debit credit))
  exact congrArg (fun u => ask u.1) (Movement.updates_eq different)

theorem next_updatingSecond (different : m.source ≠ m.destination) (transfer : Transfer)
    (debit credit : Entry) (first : Account) :
    (updatingSecond transfer debit credit first).next m limit =
      .awaitBefore (.addToBalance m.higher (m.change m.higher))
        (proceed limit (.updateBalance m.higher)
          fun second => committing (receipt m transfer debit credit first second)) := by
  let ask (u : Update) : Next := .awaitBefore (.addToBalance u.account u.delta)
    (proceed limit (.updateBalance u.account)
      fun second => committing (receipt m transfer debit credit first second))
  exact congrArg (fun u => ask u.2) (Movement.updates_eq different)

def Dealt (m : Movement) (limit : Duration) (log : List Dealing) : Phase → Prop
  | opening => log = []
  | recording => log = [.begun]
  | debiting transfer => log = [.begun,m.recorded transfer]
  | crediting transfer debit => log = [.begun,m.recorded transfer,m.debited debit]
  | updatingFirst transfer debit credit =>
    log = [.begun,m.recorded transfer,m.debited debit,m.credited credit]
  | updatingSecond transfer debit credit first =>
    log = [.begun,m.recorded transfer,m.debited debit,m.credited credit,m.updatedLower first]
  | committing r => ∃ first second,
    (first.id = m.lower → (r.source,r.destination) = m.sides first second) ∧
      log = [.begun,m.recorded r.transfer,m.debited r.debit,m.credited r.credit,
        m.updatedLower first,m.updatedHigher second]
  | rollingBack e => Interrupted m limit log e
  | ended outcome => Conducts m limit log outcome

-- A call inside the transaction takes the transfer on, or to the rollback.
theorem Dealt.proceed (earlier : List (TransferStep × Call)) {later : List (TransferStep × Call)}
    {step : TransferStep} (done : List Dealing) {onward : call.Row → Phase}
    (steps : m.steps = earlier ++ (step,call) :: later)
    (made : done.map Dealing.call = earlier.map Prod.snd) (succeeded : ∀ d ∈ done, d.Done)
    (goes : ∀ row, (onward row).Dealt m limit (.begun :: done ++ [⟨call,some (.ok row)⟩]))
    (answer : Option (Except StoreError call.Row)) :
    (proceed limit step onward answer).Dealt m limit (.begun :: done ++ [⟨call,answer⟩]) := by
  rcases answer with _ | _ | row
  · exact .at steps made succeeded rfl
  · exact .at steps made succeeded rfl
  · exact goes row

theorem Dealt.awaited {onward : Except StoreError call.Row → Phase}
    (checked : m.check = .ok ()) (dealt : p.Dealt m limit log)
    (next : p.next m limit = .await call onward) (answer : Except StoreError call.Row) :
    (onward answer).Dealt m limit (log ++ [⟨call,some answer⟩]) := by
  obtain ⟨different,positive⟩ := Movement.check_eq_ok.mp checked
  cases p with
  | opening =>
    cases next
    cases dealt
    cases answer with
    | ok => rfl
    | error e => exact .unopened different positive e
  | rollingBack cause =>
    cases next
    exact .undone different positive dealt answer
  | recording | debiting _ | crediting _ _ | updatingFirst _ _ _ | updatingSecond _ _ _ _
  | committing _ | ended _ => simp only [Phase.next,reduceCtorEq] at next

theorem Dealt.onward {onward : Option (Except StoreError call.Row) → Phase}
    (checked : m.check = .ok ()) (dealt : p.Dealt m limit log)
    (next : p.next m limit = .awaitBefore call onward)
    (answer : Option (Except StoreError call.Row)) :
    (onward answer).Dealt m limit (log ++ [⟨call,answer⟩]) := by
  obtain ⟨different,positive⟩ := Movement.check_eq_ok.mp checked
  have recorded : ∀ t, (m.recorded t).Done := fun t => ⟨t,rfl⟩
  have debited : ∀ e, (m.debited e).Done := fun e => ⟨e,rfl⟩
  have credited : ∀ e, (m.credited e).Done := fun e => ⟨e,rfl⟩
  have updated : ∀ a, (m.updatedLower a).Done := fun a => ⟨a,rfl⟩
  cases p with
  | opening | rollingBack _ | ended _ => simp only [Phase.next,reduceCtorEq] at next
  | recording =>
    cases next
    cases dealt
    refine .proceed (m.steps.take 0) [] rfl rfl (by simp) ?_ answer
    exact fun row => rfl
  | debiting transfer =>
    cases next
    cases dealt
    refine .proceed (m.steps.take 1) [m.recorded transfer] rfl rfl (by simp [recorded]) ?_ answer
    exact fun row => rfl
  | crediting transfer debit =>
    cases next
    cases dealt
    refine .proceed (m.steps.take 2) [m.recorded transfer,m.debited debit] rfl rfl
      (by simp [recorded,debited]) ?_ answer
    exact fun row => rfl
  | updatingFirst transfer debit credit =>
    rw [next_updatingFirst different] at next
    cases next
    cases dealt
    refine .proceed (m.steps.take 3) [m.recorded transfer,m.debited debit,m.credited credit] rfl rfl
      (by simp [recorded,debited,credited]) ?_ answer
    exact fun row => rfl
  | updatingSecond transfer debit credit first =>
    rw [next_updatingSecond different] at next
    cases next
    cases dealt
    refine .proceed (m.steps.take 4)
      [m.recorded transfer,m.debited debit,m.credited credit,m.updatedLower first] rfl rfl
      (by simp [recorded,debited,credited,updated]) ?_ answer
    intro second
    obtain ⟨transferred,debit',credit'⟩ := receipt_rows m transfer debit credit first second
    refine ⟨first,second,fun named => Movement.receipt_sides different named _ _ _ _,?_⟩
    rw [transferred,debit',credit']
    rfl
  | committing r =>
    cases next
    obtain ⟨first,second,accounts,rfl⟩ := dealt
    rcases answer with _ | _ | _
    · exact .submitted different positive accounts none
    · exact .submitted different positive accounts (some (.error _))
    · exact .submitted different positive accounts (some (.ok ()))

theorem Leads.dealt (leads : Leads m limit log p) :
    p.Dealt m limit log ∧ (m.check = .ok () ∨ ∃ outcome, p = .ended outcome) := by
  induction leads with
  | start =>
    unfold Phase.start
    cases checked : m.check with
    | ok => exact ⟨rfl,.inl rfl⟩
    | error e => exact ⟨Conducts.refused limit checked,.inr ⟨_,rfl⟩⟩
  | await _ next answer ih =>
    obtain ⟨dealt,checked | ⟨outcome,rfl⟩⟩ := ih
    · exact ⟨dealt.awaited checked next answer,.inl checked⟩
    · cases next
  | awaitBefore _ next answer ih =>
    obtain ⟨dealt,checked | ⟨outcome,rfl⟩⟩ := ih
    · exact ⟨dealt.onward checked next answer,.inl checked⟩
    · cases next

end Phase

-- A store as transfers meet it. What it answers may depend on all that it has answered before; a call
-- with a deadline may still be open then.
structure Respondent where
  answer : List Dealing → (call : Call) → Except StoreError call.Row
  inTime : List Dealing → (call : Call) → Option (Except StoreError call.Row)

def Respondent.meet (s : Respondent) (m : Movement) (limit : Duration) (log : List Dealing)
    (p : Phase) : List Dealing × Outcome :=
  match next : p.next m limit with
  | .ended outcome => (log,outcome)
  | .await call onward =>
    have := Phase.rank_await next (s.answer log call)
    s.meet m limit (log ++ [⟨call,some (s.answer log call)⟩]) (onward (s.answer log call))
  | .awaitBefore call onward =>
    have := Phase.rank_awaitBefore next (s.inTime log call)
    s.meet m limit (log ++ [⟨call,s.inTime log call⟩]) (onward (s.inTime log call))
termination_by p.rank

section Meeting
variable (s : Respondent) {m : Movement} {limit : Duration} {log : List Dealing} {p : Phase}
  {call : Call}

theorem Respondent.meet_ended {outcome : Outcome} (next : p.next m limit = .ended outcome) :
    s.meet m limit log p = (log,outcome) := by
  rw [meet]
  split <;> rename_i same <;> rw [next] at same <;> cases same
  rfl

theorem Respondent.meet_await {onward : Except StoreError call.Row → Phase}
    (next : p.next m limit = .await call onward) :
    s.meet m limit log p =
      s.meet m limit (log ++ [⟨call,some (s.answer log call)⟩]) (onward (s.answer log call)) := by
  rw [meet]
  split <;> rename_i same <;> rw [next] at same <;> cases same
  rfl

theorem Respondent.meet_awaitBefore {onward : Option (Except StoreError call.Row) → Phase}
    (next : p.next m limit = .awaitBefore call onward) :
    s.meet m limit log p =
      s.meet m limit (log ++ [⟨call,s.inTime log call⟩]) (onward (s.inTime log call)) := by
  rw [meet]
  split <;> rename_i same <;> rw [next] at same <;> cases same
  rfl

theorem Respondent.meet_leads (leads : Phase.Leads m limit log p) :
    Phase.Leads m limit (s.meet m limit log p).1 (.ended (s.meet m limit log p).2) := by
  induction log, p using Respondent.meet.induct s m limit with
  | case1 log p outcome next =>
    rw [s.meet_ended next]
    cases p <;> simp only [Phase.next,reduceCtorEq,Next.ended.injEq] at next
    rw [next] at leads
    exact leads
  | case2 log p call onward next below ih =>
    rw [s.meet_await next]
    exact ih (leads.await next _)
  | case3 log p call onward next below ih =>
    rw [s.meet_awaitBefore next]
    exact ih (leads.awaitBefore next _)

end Meeting

-- On every store every transfer comes to an end, and in one of these ways.
theorem Respondent.meet_conducts (s : Respondent) (m : Movement) (limit : Duration) :
    Conducts m limit (s.meet m limit [] (.start m)).1 (s.meet m limit [] (.start m)).2 :=
  (s.meet_leads .start).dealt.1

-- Whatever a transfer has dealt with a store by the time it is answered, it has taken one of the
-- ways, and its outcome is the one of that way.
theorem transfer_conducted {m : Movement} {limit : Duration} {log : List Dealing}
    {outcome : Outcome} (leads : Phase.Leads m limit log (.ended outcome)) :
    Conducts m limit log outcome := leads.dealt.1

-- The source has the higher id; its update is still open at the deadline, and the rollback fails.
def belated : List Dealing :=
  let m : Movement := ⟨2,1,30⟩
  [.begun,m.recorded default,m.debited default,m.credited default,m.updatedLower default,
    ⟨.addToBalance 2 (-30),none⟩,⟨.rollback,some (.error (.connectionLost "gone"))⟩]

theorem transfer_conducted_belated :
    Phase.Leads ⟨2,1,30⟩ (.ofMillis 20) belated (.ended (.error (.timeout (.ofMillis 20)))) ∧
      Conducts ⟨2,1,30⟩ (.ofMillis 20) belated (.error (.timeout (.ofMillis 20))) := by
  have checked : Phase.Leads ⟨2,1,30⟩ (.ofMillis 20) [] .opening := .start
  have opened := checked.await rfl (.ok ())
  have recorded := opened.awaitBefore rfl (some (.ok default))
  have debited := recorded.awaitBefore rfl (some (.ok default))
  have credited := debited.awaitBefore rfl (some (.ok default))
  have updated := credited.awaitBefore rfl (some (.ok default))
  have late := updated.awaitBefore rfl none
  have undone := late.await rfl (.error (.connectionLost "gone"))
  exact ⟨undone,transfer_conducted undone⟩

end DoubleEntry
