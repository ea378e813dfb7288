import DoubleEntry.Proofs.Clients
import DoubleEntry.Proofs.JobSteps

namespace DoubleEntry

-- Moves that set the scene and act for nobody.
def Move.Arranges : Move → Prop
  | arm _ _ | setLockHold _ | setCommitDelay _ | pass _ => True
  | _ => False

inductive Agent where
  | job (i : Nat)
  | client (i : Nat)
deriving DecidableEq

inductive Actor where
  | job (j : Job)
  | client (c : Client)

namespace Actor
variable {l l' : Ledger} {x : Actor}

def tx? : Actor → Option TxId
  | job j => j.tx?
  | client c => c.tx?

def Consistent (l : Ledger) : Actor → Prop
  | job j => j.Consistent l
  | client c => c.Consistent l

theorem live_of_job {j : Job} (consistent : j.Consistent l) (owns : j.tx? = some t) : l.Live t := by
  unfold Job.tx? at owns
  cases stage : j.stage with
  | running n tx d p w =>
    rw [stage] at owns
    cases consistent n tx d p w stage with
    | opening | ended => cases owns
    | inside checked rests view =>
      rw [Job.tx?_of_rests rests] at owns
      cases Option.some.inj owns
      exact view.live
  | resting | finished | cancelled =>
    rw [stage] at owns
    cases owns

theorem live (consistent : x.Consistent l) (owns : x.tx? = some t) : l.Live t := by
  cases x with
  | job j => exact live_of_job consistent owns
  | client c =>
    cases consistent with
    | idle view | waiting _ _ view =>
      cases Option.some.inj owns
      exact view.live
    | gone => cases owns

theorem Consistent.preserved (consistent : x.Consistent l)
    (preserves : ∀ t, x.tx? = some t → l.PreservesTx t l') :
    x.Consistent l' := by
  cases x with
  | job j =>
    intro n tx d p w stage
    cases consistent n tx d p w stage with
    | opening checked => exact .opening checked
    | ended => exact .ended
    | inside checked rests view =>
      rename_i t s
      have own : j.tx? = some t := by rw [Job.tx?,stage,Job.tx?_of_rests rests]
      have preserved := preserves t own
      exact .inside checked (rests.of_own preserved.own) (view.preserved preserved)
  | client c =>
    cases consistent with
    | idle view idle => exact .idle (view.preserved (preserves _ rfl)) idle
    | waiting patient idle view => exact .waiting patient idle (view.preserved (preserves _ rfl))
    | gone => exact .gone

end Actor

namespace Bank
variable {b b' : Bank} {l' : Ledger} {tx : TxId} {i : Nat} {j j' : Job} {c c' : Client}

def at? (b : Bank) : Agent → Option Actor
  | .job i => b.jobs[i]?.map .job
  | .client i => b.clients[i]?.map .client

structure Sound (b : Bank) : Prop where
  ledger : b.ledger.Sound
  consistent : ∀ a x, b.at? a = some x → x.Consistent b.ledger
  apart : ∀ a a' x x' tx, b.at? a = some x → b.at? a' = some x' →
    x.tx? = some tx → x'.tx? = some tx → a = a'

theorem Sound.live (sound : b.Sound) (here : b.at? a = some x) (owns : x.tx? = some tx) :
    b.ledger.Live tx :=
  Actor.live (sound.consistent a x here) owns

-- A move on behalf of a transaction that belongs to nobody but the mover keeps the bank sound.
theorem Sound.passes (sound : b.Sound) (mover : Option Agent) (acts : b.ledger.Acts tx b'.ledger)
    (foreign : ∀ a x, mover ≠ some a → b.at? a = some x → x.tx? ≠ some tx)
    (own : ∀ a x, mover = some a → b'.at? a = some x →
      x.Consistent b'.ledger ∧ (x.tx? = some tx ∨ x.tx? = none))
    (others : ∀ a, mover ≠ some a → b'.at? a = b.at? a) : b'.Sound := by
  refine ⟨acts.sound,?_,?_⟩
  · intro a x here
    by_cases mine : mover = some a
    · exact (own a x mine here).1
    · rw [others a mine] at here
      refine (sound.consistent a x here).preserved ?_
      intro t owns
      refine acts.preserves t ?_ (sound.live here owns)
      rintro rfl
      exact foreign a x mine here owns
  · -- The transaction acted for is the mover's, every other one is where it was.
    have stranger : ∀ a a' x x' t, mover = some a → mover ≠ some a' → b'.at? a = some x →
        b.at? a' = some x' → x.tx? = some t → x'.tx? = some t → False := by
      intro a a' x x' t mine theirs here there owns owns'
      rcases (own a x mine here).2 with same | none
      · exact foreign a' x' theirs there (by rw [owns',← owns,same])
      · rw [none] at owns
        cases owns
    intro a a' x x' t here there owns owns'
    by_cases mine : mover = some a
    · by_cases mine' : mover = some a'
      · exact Option.some.inj (mine.symm.trans mine')
      · rw [others a' mine'] at there
        exact (stranger a a' x x' t mine mine' here there owns owns').elim
    · rw [others a mine] at here
      by_cases mine' : mover = some a'
      · exact (stranger a' a x' x t mine' mine there here owns' owns).elim
      · rw [others a' mine'] at there
        exact sound.apart a a' x x' t here there owns owns'

theorem Sound.foreign_of_own (sound : b.Sound) (here : b.at? a = some x) (owns : x.tx? = some tx) :
    ∀ a' x', some a ≠ some a' → b.at? a' = some x' → x'.tx? ≠ some tx := by
  intro a' x' different there owns'
  exact different (congrArg some (sound.apart a a' x x' tx here there owns owns'))

theorem Sound.foreign_of_fresh (sound : b.Sound) (unused : ¬b.ledger.Live tx)
    {mover : Option Agent} : ∀ a x, mover ≠ some a → b.at? a = some x → x.tx? ≠ some tx :=
  fun _ _ _ here owns => unused (sound.live here owns)

theorem Sound.stays (sound : b.Sound) (acts : b.ledger.Acts b.ledger.nextTx b'.ledger)
    (same : ∀ a, b'.at? a = b.at? a) : b'.Sound := by
  have unused := Ledger.not_live_nextTx sound.ledger
  refine sound.passes none acts (sound.foreign_of_fresh unused) ?_ fun a _ => same a
  intro a x mine
  cases mine

theorem updateJob_eq_some {work : Job → Option (Ledger × Job)}
    (updated : b.updateJob i work = some b') :
    ∃ j l' j', b.jobs[i]? = some j ∧ work j = some (l',j') ∧
      b' = { b with ledger := l', jobs := b.jobs.set i j' } := by
  unfold updateJob at updated
  cases found : b.jobs[i]? with
  | none =>
    rw [found] at updated
    cases updated
  | some j =>
    rw [found] at updated
    obtain ⟨⟨l',j'⟩,worked,same⟩ := Option.map_eq_some_iff.mp updated
    exact ⟨j,l',j',rfl,worked,same.symm⟩

theorem updateClient_eq_some {work : Client → Option (Ledger × Client)}
    (updated : b.updateClient i work = some b') :
    ∃ c l' c', b.clients[i]? = some c ∧ work c = some (l',c') ∧
      b' = { b with ledger := l', clients := b.clients.set i c' } := by
  unfold updateClient at updated
  cases found : b.clients[i]? with
  | none =>
    rw [found] at updated
    cases updated
  | some c =>
    rw [found] at updated
    obtain ⟨⟨l',c'⟩,worked,same⟩ := Option.map_eq_some_iff.mp updated
    exact ⟨c,l',c',rfl,worked,same.symm⟩

theorem Sound.job (sound : b.Sound) (found : b.jobs[i]? = some j) : j.Consistent b.ledger :=
  sound.consistent (.job i) (.job j) (by simp [at?,found])

theorem Sound.client (sound : b.Sound) (found : b.clients[i]? = some c) : c.Consistent b.ledger :=
  sound.consistent (.client i) (.client c) (by simp [at?,found])

theorem Sound.foreign_of_acting (sound : b.Sound) (found : b.jobs[i]? = some j) :
    ∀ a x, some (.job i) ≠ some a → b.at? a = some x → x.tx? ≠ some (j.acting b.ledger) := by
  unfold Job.acting
  cases owns : j.tx? with
  | none => exact sound.foreign_of_fresh (Ledger.not_live_nextTx sound.ledger)
  | some t => exact sound.foreign_of_own (x := .job j) (by simp [at?,found]) owns

theorem Sound.setJob (sound : b.Sound) (found : b.jobs[i]? = some j)
    (acts : b.ledger.Acts (j.acting b.ledger) l') (consistent : j'.Consistent l')
    (owns : j'.tx? = some (j.acting b.ledger) ∨ j'.tx? = none) :
    Sound { b with ledger := l', jobs := b.jobs.set i j' } := by
  refine sound.passes (some (.job i)) acts (sound.foreign_of_acting found) ?_ ?_
  · intro a x mine here
    cases mine
    have bound := (List.getElem?_eq_some_iff.mp found).1
    simp only [at?,List.getElem?_set_self bound,Option.map_some] at here
    cases here
    exact ⟨consistent,owns⟩
  · intro a other
    cases a with
    | client k => rfl
    | job k =>
      have different : i ≠ k := fun same => other (same ▸ rfl)
      simp only [at?,List.getElem?_set_ne different]

theorem Sound.setClient (sound : b.Sound)
    (found : b.clients[i]? = some c) (owned : c.tx? = some tx) (moves : c'.Moves tx b.ledger l') :
    Sound { b with ledger := l', clients := b.clients.set i c' } := by
  have here : b.at? (.client i) = some (.client c) := by simp [at?,found]
  refine sound.passes (some (.client i)) moves.acts (sound.foreign_of_own here owned) ?_ ?_
  · intro a x mine here
    cases mine
    have bound := (List.getElem?_eq_some_iff.mp found).1
    simp only [at?,List.getElem?_set_self bound,Option.map_some] at here
    cases here
    exact ⟨moves.consistent,moves.owns⟩
  · intro a other
    cases a with
    | job k => rfl
    | client k =>
      have different : i ≠ k := fun same => other (same ▸ rfl)
      simp only [at?,List.getElem?_set_ne different]

theorem getElem?_concat_ne {xs : List α} (other : k ≠ xs.length) : (xs ++ [x])[k]? = xs[k]? := by
  rw [List.getElem?_append]
  split
  · rfl
  · rw [List.getElem?_eq_none (by simp; omega),List.getElem?_eq_none (by omega)]

theorem Sound.addJob (sound : b.Sound) (consistent : j.Consistent b.ledger) (free : j.tx? = none) :
    Sound { b with jobs := b.jobs ++ [j] } := by
  have unused := Ledger.not_live_nextTx sound.ledger
  refine sound.passes (some (.job b.jobs.length)) (.refl sound.ledger b.ledger.nextTx)
    (sound.foreign_of_fresh unused) ?_ ?_
  · intro a x mine here
    cases mine
    simp only [at?,List.getElem?_concat_length,Option.map_some] at here
    cases here
    exact ⟨consistent,.inr free⟩
  · intro a other
    cases a with
    | client k => rfl
    | job k =>
      have different : k ≠ b.jobs.length := fun same => other (same ▸ rfl)
      simp only [at?,getElem?_concat_ne different]

theorem Sound.addClient (sound : b.Sound) (acts : b.ledger.Acts b.ledger.nextTx l')
    (view : l'.HasView b.ledger.nextTx {}) :
    Sound { b with ledger := l', clients := b.clients ++ [.idle b.ledger.nextTx] } := by
  have unused := Ledger.not_live_nextTx sound.ledger
  refine sound.passes (some (.client b.clients.length)) acts
    (sound.foreign_of_fresh unused) ?_ ?_
  · intro a x mine here
    cases mine
    simp only [at?,List.getElem?_concat_length,Option.map_some] at here
    cases here
    exact ⟨.idle view rfl,.inl rfl⟩
  · intro a other
    cases a with
    | job k => rfl
    | client k =>
      have different : k ≠ b.clients.length := fun same => other (same ▸ rfl)
      simp only [at?,getElem?_concat_ne different]

-- What a move comes to on a sound bank.
inductive Advances (b : Bank) : Move → Bank → Prop where
  | opens {owner : String} {currency : Currency} {balance : Int} :
      Advances b (.createAccount owner currency balance) { b with
        ledger := (b.ledger.createAccount owner currency balance (.ofMillis b.clock)).1 }
  | arranges {move : Move} {b' : Bank} (arranging : move.Arranges)
      (acts : b.ledger.Acts b.ledger.nextTx b'.ledger) (books : b'.ledger.books = b.ledger.books)
      (committed : b'.ledger.committed = b.ledger.committed) (jobs : b'.jobs = b.jobs)
      (clients : b'.clients = b.clients) : Advances b move b'
  | launches {plan : JobPlan} :
      Advances b (.launch plan) { b with jobs := b.jobs ++ [Job.start b.clock b.ledger plan] }
  | steps {i : Nat} {j j' : Job} {l' : Ledger} (found : b.jobs[i]? = some j)
      (moves : j.Moves b.ledger l' j') :
      Advances b (.step i) { b with ledger := l', jobs := b.jobs.set i j' }
  | aborts {i : Nat} {j : Job} {l' : Ledger} (found : b.jobs[i]? = some j)
      (free : j.stage.interruptible = true) (closes : b.ledger.Closes (j.acting b.ledger) l')
      (quiet : b.ledger.Quiet l') :
      Advances b (.abort i) { b with
        ledger := l', jobs := b.jobs.set i { j with stage := .cancelled } }
  | byHand {move : Move} {b' : Bank} {tx : TxId} (hand : ¬move.Transferring) (sound : b'.Sound)
      (acts : b.ledger.Acts tx b'.ledger)
      (unspent : b.ledger.Live tx ∨ tx = b.ledger.nextTx) (grows : b.ledger.Grows b'.ledger)
      (jobs : b'.jobs = b.jobs) : Advances b move b'

theorem Sound.byClient (sound : b.Sound) {move : Move} {work : Client → Option (Ledger × Client)}
    (hand : ¬move.Transferring) (updated : b.updateClient i work = some b')
    (worked : ∀ c l' c', c.Consistent b.ledger → work c = some (l',c') →
      ∃ tx, c.tx? = some tx ∧ c'.Moves tx b.ledger l') : b.Advances move b' := by
  obtain ⟨c,l',c',found,done,rfl⟩ := updateClient_eq_some updated
  have consistent := sound.client found
  obtain ⟨tx,owned,moves⟩ := worked c l' c' consistent done
  have live : b.ledger.Live tx := Actor.live (x := .client c) consistent owned
  exact .byHand hand (sound.setClient found owned moves) moves.acts (.inl live) moves.grows rfl

theorem Sound.begins (sound : b.Sound) (advanced : b.advance .begin = some b') :
    b.Advances .begin b' := by
  obtain ⟨acts,quiet,opened⟩ := Ledger.begin_opens sound.ledger
  simp only [advance] at advanced
  split at advanced
  · rename_i l' began
    cases Option.some.inj advanced
    rw [began] at acts quiet opened
    rcases opened with ⟨_,view⟩ | ⟨e,refused,_⟩
    · exact .byHand id (sound.addClient acts view) acts (.inr rfl) quiet.grows rfl
    · cases refused
  · rename_i l' e began
    cases Option.some.inj advanced
    rw [began] at acts quiet
    exact .byHand id (sound.stays acts fun _ => rfl) acts (.inr rfl) quiet.grows rfl

theorem Sound.advances (sound : b.Sound) (advanced : b.advance move = some b') :
    b.Advances move b' := by
  have same {l' : Ledger} (rows : l'.rows = b.ledger.rows) (live : l'.live = b.ledger.live)
      (begun : l'.begun = b.ledger.begun) : b.ledger.Acts b.ledger.nextTx l' :=
    .of_same sound.ledger rows live begun _
  cases move with
  | createAccount =>
    cases Option.some.inj advanced
    exact .opens
  | arm | setLockHold | setCommitDelay | pass =>
    cases Option.some.inj advanced
    exact .arranges trivial (same rfl rfl rfl) rfl rfl rfl rfl
  | launch plan =>
    cases Option.some.inj advanced
    exact .launches
  | step i =>
    obtain ⟨j,l',j',found,stepped,rfl⟩ := updateJob_eq_some advanced
    exact .steps found (Job.step_moves sound.ledger (sound.job found) stepped)
  | abort i =>
    obtain ⟨j,l',j',found,aborted,rfl⟩ := updateJob_eq_some advanced
    split at aborted
    · rename_i free
      obtain ⟨closes,quiet,cancelled⟩ := Job.abort_closes sound.ledger (sound.job found) free
      rw [Option.some.inj aborted] at closes quiet cancelled
      cases cancelled
      exact .aborts found free closes quiet
    · cases aborted
  | begin => exact sound.begins advanced
  | call k call =>
    exact sound.byClient id advanced fun _ _ _ consistent made =>
      Client.make_moves sound.ledger consistent made
  | resume k =>
    exact sound.byClient id advanced fun _ _ _ consistent resumed =>
      Client.resume_moves sound.ledger consistent resumed
  | cancel k =>
    exact sound.byClient id advanced fun _ _ _ consistent cancelled =>
      Client.cancel_moves sound.ledger consistent cancelled
  | drop k =>
    exact sound.byClient id advanced fun _ _ _ _ dropped => Client.drop_moves sound.ledger dropped

theorem Advances.sound (sound : b.Sound) (advances : b.Advances move b') : b'.Sound := by
  cases advances with
  | opens =>
    exact sound.stays (Ledger.acts_createAccount sound.ledger _ _ _ _ _) fun _ => rfl
  | arranges _ acts _ _ jobs clients =>
    refine sound.stays acts ?_
    intro a
    cases a with
    | job i => simp only [at?,jobs]
    | client i => simp only [at?,clients]
  | launches => exact sound.addJob (Job.start_consistent _ _ _) (Job.tx?_start _ _ _)
  | steps found moves =>
    refine sound.setJob found moves.acts moves.consistent ?_
    rcases moves.owns with same | ⟨none,_⟩
    · exact .inl same
    · exact .inr none
  | aborts found free closes quiet =>
    refine sound.setJob found closes.acts ?_ (.inr rfl)
    intro _ _ _ _ _ here
    cases here
  | byHand _ sound' => exact sound'

-- Nobody opens a transaction under a number that has been used before.
def Spent (b : Bank) (tx : TxId) : Prop := ¬b.ledger.Live tx ∧ tx < b.ledger.begun

theorem ne_of_spent (spent : b.Spent tx)
    (unspent : b.ledger.Live acting ∨ acting = b.ledger.nextTx) : tx ≠ acting := by
  rintro rfl
  rcases unspent with live | next
  · exact spent.1 live
  · exact Nat.ne_of_lt spent.2 next

theorem spent_of_acts (spent : b.Spent tx) (acts : b.ledger.Acts acting b'.ledger)
    (unspent : b.ledger.Live acting ∨ acting = b.ledger.nextTx) : b'.Spent tx := by
  have different := ne_of_spent spent unspent
  exact ⟨fun live => spent.1 (acts.live tx different live),Nat.lt_of_lt_of_le spent.2 acts.begun⟩

end Bank
end DoubleEntry
