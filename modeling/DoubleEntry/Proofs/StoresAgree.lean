import Mathlib.Data.List.Forall2
import DoubleEntry.Proofs.Postgres
import DoubleEntry.Proofs.SingleClient
import DoubleEntry.Proofs.Solo

namespace DoubleEntry

namespace Phase
variable {m : Movement} {limit : Duration} {p : Phase} {call : Call}

theorem awaits_of_row {onward : Option (Except StoreError call.Row) → Phase}
    (next : p.next m limit = .awaitBefore call onward) (inside : call.Inside) (row : call.Row) :
    ∃ call' onward', (onward (some (.ok row))).next m limit = .awaitBefore call' onward' := by
  cases p <;> simp only [Phase.next,reduceCtorEq] at next <;> cases next
  case committing => cases inside
  all_goals exact ⟨_,_,rfl⟩

end Phase

def Movement.Fits (m : Movement) : Prop :=
  Bigint.Fits m.source ∧ Bigint.Fits m.destination ∧ Bigint.Fits m.amount

instance (m : Movement) : Decidable m.Fits := inferInstanceAs (Decidable (_ ∧ _ ∧ _))

theorem Movement.fits_asked {m : Movement} (fits : m.Fits) (positive : 0 < m.amount) (p : Phase) :
    (p.asks m).statement.Fits := by
  obtain ⟨source,destination,amount⟩ := fits
  have negated : Bigint.Fits (-m.amount) := by
    unfold Bigint.Fits Bigint.least Bigint.greatest at amount ⊢
    omega
  intro n member
  have known : n = m.source ∨ n = m.destination ∨ n = m.amount ∨ n = -m.amount := by
    rcases m.updates_cases with order | order <;> cases p <;>
      simp [Phase.asks,order,Call.statement,Sql.Statement.params] at member <;> omega
  rcases known with rfl | rfl | rfl | rfl
  · exact source
  · exact destination
  · exact amount
  · exact negated

namespace Sql
variable {σ : Type} [Connection (StateM σ)] {server : Postgres σ} {v : σ} {l l' : Ledger} {j : Job}
  {now : Nat}

-- Nobody is at work on either side, and both have the same committed.
structure Postgres.Matches (server : Postgres σ) (l : Ledger) (v : σ) : Prop where
  idle : l.Idle
  standing : server.standing v = .idle
  same : l.books.bare = (server.committed v).bare

-- The job ends with the outcome of the run, up to what stores add of their own, and so does all that
-- is committed.
def Postgres.Meets (server : Postgres σ) (now : Nat) (x : Ledger × Job)
    (run : Outcome × σ) : Prop :=
  ∃ l' j' outcome time, Job.Reaches now x (l',j') ∧ j'.stage = .finished outcome time ∧
    outcome.bare = run.1.bare ∧ server.Matches l' run.2

theorem Postgres.Meets.step {x y : Ledger × Job} {run : Outcome × σ}
    (meets : server.Meets now y run) (stepped : x.2.step now x.1 = some y) :
    server.Meets now x run := by
  obtain ⟨l',j',outcome,time,reaches,finished⟩ := meets
  exact ⟨l',j',outcome,time,reaches.head stepped,finished⟩

structure Plain (j : Job) : Prop where
  once : j.plan.retry = none
  unplanned : j.plan.failures = []

variable {n d : Nat} {tx : Option TxId} {t : TxId} {w : Option Wait} {p p' : Phase} {s : TxView}
  {k : Books} {call : Call}

theorem meets_ended {outcome outcome' : Outcome} (plain : Plain j)
    (stage : j.stage = .running n tx d (.ended outcome) w) (alike : outcome.bare = outcome'.bare)
    (matched : server.Matches l v) : server.Meets now (l,j) (outcome',v) := by
  refine .step ?_ (Job.step_ended plain.once stage)
  exact ⟨l,_,outcome,now,.refl,rfl,alike,matched⟩

-- Both sides of an attempt between two calls: the one has in view what the other has written.
structure InStep (server : Postgres σ) (l : Ledger) (t : TxId) (s : TxView) (v : σ)
    (k : Books) : Prop where
  alone : l.Alone t
  view : l.HasView t s
  working : server.standing v = .working k
  written : (l.books.post s).bare = k.bare
  same : l.books.bare = (server.committed v).bare

theorem meets_rollingBack {cause : TransferError} (plain : Plain j)
    (stage : j.stage = .running n (some t) d (.rollingBack cause) none)
    (alike : (Phase.rollingBack cause).bare = p'.bare) (alone : l.Alone t)
    (unended : server.standing v ≠ .idle) (same : l.books.bare = (server.committed v).bare) :
    server.Meets now (l,j)
      ((p'.drive j.plan.movement j.plan.timeout answer : StateM σ _) v) := by
  cases p' <;> simp only [Phase.bare,reduceCtorEq] at alike
  rename_i cause'
  have cause_alike : cause.bare = cause'.bare := Phase.rollingBack.inj alike
  obtain ⟨l',started,idle,books⟩ := alone.rollsBack now
  obtain ⟨v',ran,committed,standing⟩ := server.rollback unended
  rw [Phase.drive_await rfl,bind_of_ran ran,Phase.drive_ended]
  refine .step ?_ (Job.step_awaited plain.unplanned stage rfl started)
  refine meets_ended ⟨plain.once,plain.unplanned⟩ rfl ?_ ⟨idle,standing,?_⟩
  · exact congrArg Except.error cause_alike
  · rw [books,same,committed]

theorem meets_committing {r : Receipt} (plain : Plain j)
    (stage : j.stage = .running n (some t) d (.committing r) none)
    (alike : (Phase.committing r).bare = p'.bare) (inStep : InStep server l t s v k) :
    server.Meets now (l,j)
      ((p'.drive j.plan.movement j.plan.timeout answer : StateM σ _) v) := by
  cases p' <;> simp only [Phase.bare,reduceCtorEq] at alike
  rename_i r'
  have rows : r.bare = r'.bare := Phase.committing.inj alike
  obtain ⟨l',started,idle,books⟩ := inStep.alone.commits inStep.view now
  obtain ⟨v',ran,committed,standing⟩ := server.commit inStep.working
  rw [Phase.drive_awaitBefore rfl,bind_of_ran ran,Phase.drive_ended]
  refine .step ?_ (Job.step_answered plain.unplanned stage rfl started)
  refine meets_ended ⟨plain.once,plain.unplanned⟩ rfl ?_ ⟨idle,standing,?_⟩
  · exact congrArg Except.ok rows
  · rw [books,inStep.written,committed]

-- One call on both sides. Either both bring the same row and go on, or both fail and roll back.
theorem meets_inside {rank : Nat} {onward : Option (Except StoreError call.Row) → Phase}
    (plain : Plain j) (stage : j.stage = .running n (some t) d p none)
    (checked : j.plan.movement.check = .ok ()) (fits : j.plan.movement.Fits)
    (next : p.next j.plan.movement j.plan.timeout = .awaitBefore call onward)
    (alike : p.bare = p'.bare) (rests : p.Rests j.plan.movement l t s)
    (inStep : InStep server l t s v k) (below : p.rank ≤ rank) :
    server.Meets now (l,j)
      ((p'.drive j.plan.movement j.plan.timeout answer : StateM σ _) v) := by
  induction rank generalizing p p' l j s v k call with
  | zero =>
    have := Phase.rank_awaitBefore next none
    omega
  | succ rank ih =>
    rcases Phase.inside_or_committing next with ⟨asked,inside,_,fails⟩ | ⟨r,rfl⟩
    · obtain ⟨different,positive⟩ := Movement.check_eq_ok.mp checked
      obtain ⟨onward',next',onwards⟩ := Phase.next_alike alike next
      have obeys := Ledger.start_obeys inside inStep.alone inStep.view rests.idle now
      have serves := server.serves inside inStep.working
        (by rw [asked]; exact Movement.fits_asked fits positive p)
      rw [Phase.drive_awaitBefore next']
      generalize started : l.start now t call = out at obeys
      generalize ran : (answer call : StateM σ _) v = out' at serves
      have step {answer : Except StoreError call.Row} {l' : Ledger}
          (answered : out = (l',.answered answer)) :=
        Job.step_answered plain.unplanned stage next (started.trans answered)
      cases obeys with
      | @row l' r served alone quiet view shows =>
        cases serves with
        | error refused => cases served.symm.trans (inStep.written ▸ refused)
        | @row r' v' k' served' committed working =>
          rw [inStep.written,served'] at served
          obtain ⟨rows,written⟩ := Prod.mk.inj (Except.ok.inj served)
          obtain ⟨call',onward'',next''⟩ := Phase.awaits_of_row next inside r
          rw [bind_of_ran ran]
          refine .step ?_ (step rfl)
          have alike' := onwards (.ok r) (.ok r') (congrArg Except.ok rows.symm)
          have rests' := rests.onward different next inside shows fun id other =>
            Ledger.HasView.draft?_kept (w := none) inStep.view view quiet other
          have same : l'.books.bare = (server.committed v').bare := by
            rw [quiet.books,inStep.same,committed]
          refine ih ⟨plain.once,plain.unplanned⟩ rfl checked fits next'' alike' rests'
            ⟨alone,view,working,written.symm,same⟩ ?_
          have := Phase.rank_awaitBefore next (some (.ok r))
          omega
      | @error l' s' e refused alone quiet view idle =>
        cases serves with
        | row served => cases refused.symm.trans (inStep.written ▸ served)
        | @error e' v' refused' committed unended =>
          rw [inStep.written,refused'] at refused
          have failures := Except.error.inj refused
          rw [bind_of_ran ran]
          refine .step ?_ (step rfl)
          obtain ⟨step,rolls⟩ := fails e
          have alike' := onwards (.error e) (.error e') (congrArg Except.error failures.symm)
          rw [rolls] at alike' ⊢
          refine meets_rollingBack ⟨plain.once,plain.unplanned⟩ rfl alike' alone unended ?_
          rw [quiet.books,inStep.same,committed]
    · cases next
      exact meets_committing plain stage alike inStep

theorem meets_opening (plain : Plain j) (stage : j.stage = .running n none d .opening none)
    (checked : j.plan.movement.check = .ok ()) (fits : j.plan.movement.Fits)
    (matched : server.Matches l v) :
    server.Meets now (l,j)
      ((Phase.opening.drive j.plan.movement j.plan.timeout answer : StateM σ _) v) := by
  obtain ⟨l',started,alone,books,view⟩ := matched.idle.begins now
  obtain ⟨v',ran,committed,working⟩ := server.begin matched.standing
  rw [Phase.drive_await rfl,bind_of_ran ran]
  refine .step ?_ (Job.step_awaited plain.unplanned stage rfl started)
  have same : l'.books.bare = (server.committed v').bare := by rw [books,matched.same,committed]
  refine meets_inside ⟨plain.once,plain.unplanned⟩ rfl checked fits rfl rfl rfl
    ⟨alone,view,working,?_,same⟩ (Nat.le_refl _)
  rw [Books.post_empty,same,committed]

theorem meets_transfer (now : Nat) (plan : JobPlan) (once : plan.retry = none)
    (unplanned : plan.failures = []) (fits : plan.movement.Fits) (matched : server.Matches l v) :
    server.Meets now (l,Job.start now l plan)
      ((transferOnce plan.timeout plan.movement : StateM σ _) v) := by
  cases checked : plan.movement.check with
  | ok =>
    have run : transferOnce (m := StateM σ) plan.timeout plan.movement =
        Phase.opening.drive plan.movement plan.timeout answer := by
      rw [transferOnce,Phase.start,checked]
    rw [run]
    exact meets_opening ⟨once,unplanned⟩ (Job.start_plain now l once checked) checked fits matched
  | error e =>
    have run : transferOnce (m := StateM σ) plan.timeout plan.movement = pure (.error e) := by
      rw [transferOnce,Phase.start,checked]
      exact Phase.drive_ended _
    have stage : (Job.start now l plan).stage = .running 0 none 0 (.ended (.error e)) none := by
      simp only [Job.start,once,Stage.attempt,Phase.start,checked]
    rw [run]
    exact meets_ended ⟨once,unplanned⟩ stage rfl matched

def transferEach (limit : Duration) : List Movement → σ → List (Outcome × σ)
  | [],_ => []
  | m :: rest,v =>
    let run := (transferOnce limit m : StateM σ _) v
    run :: transferEach limit rest run.2

end Sql

def Command.transfer (limit : Duration) (m : Movement) : Command :=
  .run { request := { toMovement := m }, timeout := limit }

namespace Sql
variable {σ : Type} [Connection (StateM σ)] {server : Postgres σ} {w : World} {v : σ}

-- The same transfers, asked for one after another of a ledger in memory and of a database server
-- that both begin with the same accounts, are answered alike, and leave the same behind each time.
theorem stores_agree (server : Postgres σ) (limit : Duration) (ms : List Movement)
    (fits : ∀ m ∈ ms, m.Fits) (settled : ∀ j ∈ w.jobs, j.stage.settled = true)
    (matched : server.Matches w.ledger v) :
    List.Forall₂ (fun (reply : Answer × World) (run : Outcome × σ) =>
        ∃ outcome calls elapsed, reply.1 = .report outcome calls elapsed ∧
          -- the same rows, or a failure of the same kind at the same step
          outcome.Agrees run.1 ∧
          -- the same balances, transfers and entries are committed
          reply.2.ledger.books.bare = (server.committed run.2).bare)
      (w.play (ms.map (Command.transfer limit))) (transferEach limit ms v) := by
  induction ms generalizing w v with
  | nil => exact .nil
  | cons m rest ih =>
    have first := fits m (by simp)
    obtain ⟨l',j',outcome,time,reaches,finished,alike,matched'⟩ :=
      meets_transfer w.clock { request := { toMovement := m }, timeout := limit } rfl rfl first
        matched
    have obeyed := World.obey_run settled reaches finished
    have ended : ∀ j ∈ w.jobs ++ [j'], j.stage.settled = true := by
      intro j member
      rcases List.mem_append.mp member with old | new
      · exact settled j old
      · rw [List.mem_singleton.mp new,finished]
        rfl
    have later := ih (w := { w with ledger := l', jobs := w.jobs ++ [j'] })
      (fun m member => fits m (by simp [member])) ended matched'
    rw [List.map_cons,World.play,Command.transfer,obeyed]
    exact .cons ⟨outcome,_,_,rfl,Outcome.agrees_of_bare alike,matched'.same⟩ later

end Sql

def Ledger.founded (accounts : List (String × Currency × Int)) : Ledger :=
  accounts.foldl
    (fun l (owner,currency,balance) => (l.createAccount owner currency balance default).1) {}

theorem Ledger.founded_idle (accounts : List (String × Currency × Int)) :
    (founded accounts).Idle := by
  have onward (l : Ledger) (idle : l.Idle) : Idle (accounts.foldl
      (fun l (owner,currency,balance) => (l.createAccount owner currency balance default).1) l) := by
    induction accounts generalizing l with
    | nil => exact idle
    | cons account rest ih => exact ih _ (idle.createAccount _ _ _ _)
  exact onward {} ⟨Bank.sound_empty.ledger,rfl,rfl,rfl,rfl⟩

namespace Sql

-- A server that keeps the tables itself. Its sequences count on from a number that is not taken.
structure TableServer where
  committed : Books
  standing : Standing := .idle
  nextId : Int := 1

namespace TableServer

def refusal (code : String) : Received := .error (.database (some code) "refused")

def receive (s : Statement) (v : TableServer) : Received × TableServer :=
  match v.standing,s with
  | .idle,.begin => (.ok (.affected 0),{ v with standing := .working v.committed })
  | .working k,.commit => (.ok (.affected 0),{ v with committed := k, standing := .idle })
  | .failed,.commit | .working _,.rollback | .failed,.rollback =>
    (.ok (.affected 0),{ v with standing := .idle })
  | .working k,s =>
    match k.execute v.nextId default s with
    | .ok (rows,k) => (.ok (.rows rows),{ v with standing := .working k, nextId := v.nextId + 1 })
    | .error code => (refusal code,{ v with standing := .failed })
  -- in_failed_sql_transaction, no_active_sql_transaction
  | .failed,_ => (refusal "25P02",v)
  | .idle,_ => (refusal "25P01",v)

instance : Connection (StateM TableServer) where
  dial _ := fun v => (.ok (),v)
  send s := fun v => v.receive s
  abandon := modify fun v => { v with standing := .idle }

theorem receive_working {v : TableServer} {k : Books} {s : Statement}
    (working : v.standing = .working k) (writes : s.writes = true) :
    v.receive s = match k.execute v.nextId default s with
      | .ok (rows,k) => (.ok (.rows rows),{ v with standing := .working k, nextId := v.nextId + 1 })
      | .error code => (refusal code,{ v with standing := .failed }) := by
  cases s with
  | insertTransfer | insertEntry | addToBalance => simp only [receive,working]
  | _ => cases writes

def postgres : Postgres TableServer where
  committed := TableServer.committed
  standing := TableServer.standing
  begins v idle := by
    refine ⟨.affected 0,{ v with standing := .working v.committed },?_,rfl,rfl⟩
    change v.receive .begin = _
    simp only [receive,idle]
  executes v k s working writes _ := by
    have received : answered s v = _ := receive_working working writes
    refine ⟨v.nextId,default,?_⟩
    rw [received]
    cases k.execute v.nextId default s with
    | ok effect =>
      exact ⟨{ v with standing := .working effect.2, nextId := v.nextId + 1 },rfl,rfl,rfl⟩
    | error code => exact ⟨{ v with standing := .failed },rfl,"refused",rfl,rfl⟩
  commits v k working := by
    refine ⟨.affected 0,{ v with committed := k, standing := .idle },?_,rfl,rfl⟩
    change v.receive .commit = _
    simp only [receive,working]
  rollsBack v unended := by
    refine ⟨.affected 0,{ v with standing := .idle },?_,rfl,rfl⟩
    change v.receive .rollback = _
    cases here : v.standing with
    | idle => exact absurd here unended
    | working k => simp only [receive,here]
    | failed => simp only [receive,here]

end TableServer

def foundation : List (String × Currency × Int) :=
  [("alice",.usd,100),("bob",.usd,50),("carol",.usd,Bigint.greatest)]

-- One that is made, to a missing account, to the account itself, of nothing, too much for Carol,
-- and one back.
def requests : List Movement :=
  [⟨1,2,40⟩,⟨1,9,5⟩,⟨2,2,5⟩,⟨1,2,0⟩,⟨1,3,7⟩,⟨2,1,90⟩]

theorem stores_agree_requests :
    (∀ m ∈ requests, m.Fits) ∧
    TableServer.postgres.Matches (Ledger.founded foundation)
      ⟨(Ledger.founded foundation).books,.idle,1⟩ ∧
    List.Forall₂ (fun (reply : Answer × World) (run : Outcome × TableServer) =>
        ∃ outcome calls elapsed, reply.1 = .report outcome calls elapsed ∧
          outcome.Agrees run.1 ∧ reply.2.ledger.books.bare = run.2.committed.bare)
      (World.play { ledger := .founded foundation }
        (requests.map (Command.transfer (.ofMillis 1000))))
      (transferEach (.ofMillis 1000) requests ⟨(Ledger.founded foundation).books,.idle,1⟩) := by
  have fits : ∀ m ∈ requests, m.Fits := by decide
  have matched : TableServer.postgres.Matches (Ledger.founded foundation)
      ⟨(Ledger.founded foundation).books,.idle,1⟩ := ⟨Ledger.founded_idle _,rfl,rfl⟩
  exact ⟨fits,matched,stores_agree (w := { ledger := .founded foundation }) TableServer.postgres
    (.ofMillis 1000) requests fits (by simp) matched⟩

end Sql
end DoubleEntry
