import DoubleEntry.Scenario.Job

namespace DoubleEntry

inductive Client where
  | idle (tx : TxId)
  | waiting (tx : TxId) (call : Call) (wait : Wait)
  | gone
deriving DecidableEq, Repr

structure Bank where
  clock : Nat := 0
  ledger : Ledger := {}
  jobs : List Job := []
  clients : List Client := []

inductive Move where
  | createAccount (owner : String) (currency : Currency) (balance : Int)
  | arm (point : FaultPoint) (error : StoreError)
  | setLockHold (delay : Option Duration)
  | setCommitDelay (delay : Option Duration)
  | pass (ms : Nat)
  | launch (plan : JobPlan)
  | step (job : Nat)
  | abort (job : Nat)
  -- the moves of transactions run by hand
  | begin
  | call (client : Nat) (call : Call)
  | resume (client : Nat)
  | cancel (client : Nat)
  | drop (client : Nat)
deriving DecidableEq, Repr

def Move.Transferring : Move → Prop
  | begin | call _ _ | resume _ | cancel _ | drop _ => False
  | _ => True

instance (m : Move) : Decidable m.Transferring := by
  cases m <;> unfold Move.Transferring <;> infer_instance

namespace Stage

-- A job can be dropped until its transfer has been answered, and between two attempts. After the
-- answer there is nothing left at which it would wait.
def interruptible : Stage → Bool
  | running _ _ _ (.ended _) _ => false
  | running _ _ _ _ _ => true
  | resting _ _ => true
  | finished _ _ => false
  | cancelled => false

end Stage

namespace Client

def afterAnswer (tx : TxId) : Call → Client
  | .commit | .rollback => gone
  | _ => idle tx

def settle (tx : TxId) (call : Call) : Ledger × Progress call.Row → Ledger × Client
  | (l,.answered _) => (l,afterAnswer tx call)
  | (l,.waiting w) => (l,waiting tx call w)

def make (now : Nat) (l : Ledger) (call : Call) : Client → Option (Ledger × Client)
  | idle tx => if call = .begin then none else some (settle tx call (l.start now tx call))
  | _ => none

def resume (now : Nat) (l : Ledger) : Client → Option (Ledger × Client)
  | waiting tx call w => (l.resume now tx call w).map (settle tx call)
  | _ => none

-- The call is dropped and its transaction kept. A row that has passed to the waiting call in the
-- meantime passes on.
def cancel (l : Ledger) : Client → Option (Ledger × Client)
  | waiting tx (.addToBalance id _) (.row _) => some (l.updateRow id (Row.release tx),idle tx)
  | waiting tx call _ => some (l.giveUp tx call,afterAnswer tx call)
  | _ => none

def drop (l : Ledger) : Client → Option (Ledger × Client)
  | idle tx | waiting tx _ _ => some (l.discard tx,gone)
  | gone => none

end Client

namespace Bank

def updateJob (b : Bank) (i : Nat) (work : Job → Option (Ledger × Job)) : Option Bank :=
  match b.jobs[i]? with
  | none => none
  | some j => (work j).map fun (l,j) => { b with ledger := l, jobs := b.jobs.set i j }

def updateClient (b : Bank) (i : Nat) (work : Client → Option (Ledger × Client)) : Option Bank :=
  match b.clients[i]? with
  | none => none
  | some c => (work c).map fun (l,c) => { b with ledger := l, clients := b.clients.set i c }

def advance (b : Bank) : Move → Option Bank
  | .createAccount owner currency balance =>
    some { b with ledger := (b.ledger.createAccount owner currency balance (.ofMillis b.clock)).1 }
  | .arm point error => some { b with ledger := b.ledger.arm point error }
  | .setLockHold delay => some { b with ledger := { b.ledger with lockHold := delay } }
  | .setCommitDelay delay => some { b with ledger := { b.ledger with commitDelay := delay } }
  | .pass ms => some { b with clock := b.clock + ms }
  | .launch plan => some { b with jobs := b.jobs ++ [Job.start b.clock b.ledger plan] }
  | .step i => b.updateJob i (·.step b.clock b.ledger)
  | .abort i =>
    b.updateJob i fun j => if j.stage.interruptible then some (j.abort b.ledger) else none
  | .begin =>
    match b.ledger.begin with
    | (l,.ok ()) => some { b with ledger := l, clients := b.clients ++ [.idle b.ledger.nextTx] }
    | (l,.error _) => some { b with ledger := l }
  | .call i call => b.updateClient i (·.make b.clock b.ledger call)
  | .resume i => b.updateClient i (·.resume b.clock b.ledger)
  | .cancel i => b.updateClient i (·.cancel b.ledger)
  | .drop i => b.updateClient i (·.drop b.ledger)

theorem ledger_begin {b b' : Bank} (advanced : b.advance .begin = some b') :
    b'.ledger = b.ledger.begin.1 := by
  simp only [advance] at advanced
  split at advanced
  all_goals
    rename_i began
    cases Option.some.inj advanced
    exact (congrArg Prod.fst began).symm

end Bank

structure Turn where
  before : Bank
  move : Move
  after : Bank

-- A run carries its whole history; what is said of it later is read off the turns.
inductive Runs : Bank → List Turn → Bank → Prop where
  | nil : Runs b [] b
  | step : Runs origin history before → before.advance move = some after →
      Runs origin (history ++ [⟨before,move,after⟩]) after

theorem Runs.append (one : Runs origin earlier middle) (two : Runs middle later b) :
    Runs origin (earlier ++ later) b := by
  induction two with
  | nil => simpa using one
  | step _ advanced ih => simpa only [List.append_assoc] using Runs.step ih advanced

theorem Runs.split (runs : Runs origin history b) :
    ∀ {earlier t later}, history = earlier ++ t :: later →
      Runs origin earlier t.before ∧ Runs origin (earlier ++ [t]) t.after := by
  induction runs with
  | nil =>
    intro earlier t later same
    simp at same
  | step before advanced ih =>
    intro earlier t later same
    rcases List.eq_nil_or_concat later with rfl | ⟨later',t',rfl⟩
    · obtain ⟨rfl,last⟩ := List.append_inj' same rfl
      cases last
      exact ⟨before,.step before advanced⟩
    · rw [List.concat_eq_append,← List.cons_append,← List.append_assoc] at same
      exact ih (List.append_inj' same rfl).1

theorem Runs.turn {history earlier later : List Turn} {t : Turn} (runs : Runs origin history b)
    (whole : history = earlier ++ t :: later) :
    Runs origin earlier t.before ∧ t.before.advance t.move = some t.after := by
  obtain ⟨before,through⟩ := runs.split whole
  refine ⟨before,?_⟩
  obtain ⟨start,move,last⟩ := t
  generalize same : earlier ++ [Turn.mk start move last] = turns at through
  cases through with
  | nil => simp at same
  | step _ advanced =>
    cases (List.append_inj' same rfl).2
    exact advanced

def Bank.replay (b : Bank) : List Move → Option (List Turn × Bank)
  | [] => some ([],b)
  | move :: rest =>
    (b.advance move).bind fun after =>
      (after.replay rest).map fun (history,last) => (⟨b,move,after⟩ :: history,last)

theorem runs_of_replay (replayed : Bank.replay b moves = some (history,last)) :
    Runs b history last := by
  induction moves generalizing b history with
  | nil =>
    cases Option.some.inj replayed
    exact .nil
  | cons move rest ih =>
    obtain ⟨after,advanced,remaining⟩ := Option.bind_eq_some_iff.mp replayed
    obtain ⟨⟨later,last'⟩,replayed',same⟩ := Option.map_eq_some_iff.mp remaining
    cases same
    have first : Runs b [⟨b,move,after⟩] after := .step .nil advanced
    exact first.append (ih replayed')

theorem runs_of_ends (ends : (Bank.replay b moves).isSome = true) :
    Runs b ((Bank.replay b moves).get ends).1 ((Bank.replay b moves).get ends).2 :=
  runs_of_replay (Option.some_get ends).symm

-- A schedule in which much goes wrong: three transfers contend for one account; the first loses the
-- acknowledgement of its commit and is tried again, the third is dropped. A fourth is tried again
-- because its transaction could not be opened. The last two move one amount between the same two
-- accounts.
def contended : List Move :=
  [.createAccount "alice" .eur 1000,.createAccount "bob" .eur 500,.createAccount "carol" .eur 0,
    .createAccount "dave" .usd 300,.createAccount "erin" .usd 0,
    .launch { request := { source := 1, destination := 2, amount := 100 }, retry := some ⟨1,10⟩ },
    .launch { request := { source := 2, destination := 1, amount := 50 } },
    .launch { request := { source := 1, destination := 3, amount := 30 } },
    .step 0,.step 1,.step 2,.step 0,.step 1,.step 2,.step 0,.step 1,.step 2,.step 0,.step 1,.step 2,
    .step 0,.step 1,.step 2,.step 0,.arm .commitAcknowledgement (.transient "lost"),.step 0,.step 0,
    .step 1,.step 1,.step 1,.step 1,.abort 2,.pass 10,
    .step 0,.step 0,.step 0,.step 0,.step 0,.step 0,.step 0,.step 0,.step 0,
    .launch { request := { source := 2, destination := 3, amount := 5 }, retry := some ⟨1,10⟩ },
    .arm .begin (.connectionLost "gone"),.step 3,.step 3,.pass 10,
    .step 3,.step 3,.step 3,.step 3,.step 3,.step 3,.step 3,.step 3,.step 3,
    .launch { request := { source := 4, destination := 5, amount := 70 } },
    .launch { request := { source := 4, destination := 5, amount := 70 } },
    .step 4,.step 5,.step 4,.step 5,.step 4,.step 5,.step 4,.step 5,.step 5,.step 4,.step 5,.step 5,
    .step 4,.step 4,.step 4,.step 5,.step 4]

theorem contended_ends : (Bank.replay {} contended).isSome = true := by decide +kernel

def contendedRun : List Turn × Bank := (Bank.replay {} contended).get contended_ends

theorem runs_contended : Runs {} contendedRun.1 contendedRun.2 := runs_of_ends contended_ends

end DoubleEntry
