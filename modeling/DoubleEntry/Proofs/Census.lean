import DoubleEntry.Proofs.CallEffects
import DoubleEntry.Proofs.Frames

namespace DoubleEntry

-- How a transaction ends. An abandoned one was dropped, by itself, with its job or in the middle of
-- a commit, or its last call failed before it reached the ledger.
inductive Ending where
  | committed
  | undone
  | abandoned
deriving DecidableEq

structure Census where
  live : List TxId
  begun : Nat
  committed : Nat
  rolledBack : Nat

namespace Census

def opened (c : Census) : Census :=
  { c with live := c.live ++ [c.begun], begun := c.begun + 1 }

def ended (c : Census) (tx : TxId) : Ending → Census
  | .committed => { c with live := c.live.filter (· ≠ tx), committed := c.committed + 1 }
  | .undone => { c with live := c.live.filter (· ≠ tx), rolledBack := c.rolledBack + 1 }
  | .abandoned => { c with live := c.live.filter (· ≠ tx) }

end Census

namespace Ledger

def census (l : Ledger) : Census := ⟨l.live.map Tx.id,l.begun,l.committed,l.rolledBack⟩

-- The armed failure that has gone off in between.
def struck? (l l' : Ledger) (p : FaultPoint) : Option StoreError :=
  match l'.fault? p with
  | none => l.fault? p
  | some _ => none

end Ledger

-- The transaction that a call has ended. A commit that fails was refused by the ledger, which then
-- undoes it, or it was applied and only its acknowledgement was lost, or it was never made.
def CallStep.ending? (l l' : Ledger) : CallStep → Option (TxId × Ending)
  | ⟨tx,.commit,.answered (.ok _)⟩ => some (tx,.committed)
  | ⟨tx,.commit,.answered (.error _)⟩ =>
    some (tx,
      if (l.struck? l' .commitAcknowledgement).isSome then .committed
      else if (l.struck? l' .commit).isSome then .undone
      else .abandoned)
  | ⟨tx,.rollback,.answered (.ok _)⟩ => some (tx,.undone)
  | ⟨tx,.rollback,.answered (.error _)⟩ => some (tx,.abandoned)
  | _ => none

theorem CallStep.of_committed {l l' : Ledger} {d : CallStep} {tx : TxId}
    (ends : d.ending? l l' = some (tx,.committed)) : d.call = .commit ∧ d.tx = tx := by
  unfold ending? at ends
  split at ends
  · exact ⟨rfl,congrArg Prod.fst (Option.some.inj ends)⟩
  · exact ⟨rfl,congrArg Prod.fst (Option.some.inj ends)⟩
  all_goals cases ends

namespace Turn

def abandons? (t : Turn) : Option TxId :=
  t.drops?.or (t.quits?.bind fun q => if q.call = .commit then some q.tx else none)

def ending? (t : Turn) : Option (TxId × Ending) :=
  match t.callStep? with
  | some d => d.ending? t.before.ledger t.after.ledger
  | none => t.abandons?.map (·,.abandoned)

end Turn

def ended (history : List Turn) (e : Ending) : List TxId :=
  history.filterMap fun t => (t.ending?.filter (·.2 = e)).map Prod.fst

namespace Ledger
variable {l l' : Ledger} {tx : TxId} {call : Call} {d : CallStep} {now : Nat} {planned : Prop}
  {cause : TxId → Prop}

theorem census_updateTx {f : Tx → Tx} (same : ∀ t, (f t).id = t.id) :
    (l.updateTx tx f).census = l.census := by
  have kept : ∀ t : Tx, (if t.id = tx then f t else t).id = t.id := by
    intro t
    split
    · exact same t
    · rfl
  simp [census,updateTx,kept]

theorem census_discard (l : Ledger) (tx : TxId) :
    (l.discard tx).census = l.census.ended tx .abandoned := by
  simp only [census,discard,Census.ended,List.filter_map]
  rfl

theorem census_rollback (l : Ledger) (tx : TxId) :
    (l.rollback tx).census = l.census.ended tx .undone := by
  simp only [census,rollback,discard,Census.ended,List.filter_map]
  rfl

theorem Affects.census (affects : l.Affects tx call l') (inside : call.Inside) :
    l'.census = l.census := by
  cases affects with
  | opens | commits => cases inside
  | closes ending => rcases ending with rfl | rfl <;> cases inside
  | keeps | strikes | asks => rfl
  | records | enters | drafts | takes => exact census_updateTx fun _ => rfl

-- What one turn does to the open transactions and to the counters. A transaction is abandoned only
-- for a cause.
inductive Counts (cause : TxId → Prop) (l : Ledger) : Option (TxId × Ending) → Ledger → Prop where
  | keeps {l' : Ledger} (census : l'.census = l.census) : Counts cause l none l'
  | opens {l' : Ledger} (census : l'.census = l.census.opened) : Counts cause l none l'
  | ends {tx : TxId} {e : Ending} {l' : Ledger} (live : l.Live tx)
      (caused : e = .abandoned → cause tx) (census : l'.census = l.census.ended tx e) :
      Counts cause l (some (tx,e)) l'

theorem Counts.mono {cause cause' : TxId → Prop} {ending : Option (TxId × Ending)}
    (counts : l.Counts cause ending l') (wider : ∀ tx, cause tx → cause' tx) :
    l.Counts cause' ending l' := by
  cases counts with
  | keeps census => exact .keeps census
  | opens census => exact .opens census
  | ends live caused census => exact .ends live (fun abandoned => wider _ (caused abandoned)) census

theorem counts_begin (l : Ledger) : l.Counts cause none l.begin.1 := by
  unfold begin
  rcases guarded_cases l .begin
    ({ l with begun := l.begun + 1, live := l.live ++ [{ id := l.nextTx }] },.ok ()) with
    ⟨e,_,failed⟩ | ⟨_,worked⟩
  · rw [failed]
    exact .keeps rfl
  · rw [worked]
    refine .opens ?_
    simp [census,Census.opened,nextTx]

theorem struck?_same {p : FaultPoint} (same : l'.fault? p = l.fault? p) :
    l.struck? l' p = none := by
  unfold struck?
  rw [same]
  split
  · assumption
  · rfl

theorem struck?_gone {p : FaultPoint} (gone : l'.fault? p = none) :
    l.struck? l' p = l.fault? p := by
  simp only [struck?,gone]

theorem census_post (l : Ledger) (t : Tx) (tx : TxId) :
    ((l.apply t).discard tx).census = l.census.ended tx .committed := by
  simp only [census,apply,discard,Census.ended,List.filter_map]
  rfl

-- A commit that reaches the ledger: it is refused, or it is applied and may still fail.
theorem counts_commit (live : l.Live tx) :
    l.Counts cause ((CallStep.mk tx .commit (.answered (l.commit tx).2)).ending? l (l.commit tx).1)
      (l.commit tx).1 := by
  obtain ⟨t,found⟩ := live
  cases armed : l.fault? .commit with
  | some e =>
    have commits : l.commit tx = ((l.disarm .commit).rollback tx,.error e) := by
      simp only [commit,armed]
    have kept : l.struck? ((l.disarm .commit).rollback tx) .commitAcknowledgement = none :=
      struck?_same (fault?_disarm_ne l (by decide))
    have struck : l.struck? ((l.disarm .commit).rollback tx) .commit = some e :=
      (struck?_gone (fault?_disarm l .commit)).trans armed
    rw [commits]
    simp only [CallStep.ending?,kept,struck,Option.isSome_none,Option.isSome_some,if_true,
      Bool.false_eq_true,if_false]
    exact .ends ⟨t,found⟩ (by simp) (census_rollback (l.disarm .commit) tx)
  | none =>
    have commits : l.commit tx =
        ((l.apply t).discard tx).guarded .commitAcknowledgement
          ((l.apply t).discard tx,.ok ()) := by
      simp only [commit,armed,found]
    rw [commits]
    rcases guarded_cases ((l.apply t).discard tx) .commitAcknowledgement
      ((l.apply t).discard tx,.ok ()) with ⟨e,lost,failed⟩ | ⟨_,worked⟩
    · have struck : l.struck? (((l.apply t).discard tx).disarm .commitAcknowledgement)
          .commitAcknowledgement = some e := (struck?_gone (fault?_disarm _ _)).trans lost
      rw [failed]
      simp only [CallStep.ending?,struck,Option.isSome_some,if_true]
      exact .ends ⟨t,found⟩ (by simp) (census_post l t tx)
    · rw [worked]
      exact .ends ⟨t,found⟩ (by simp) (census_post l t tx)

theorem counts_unreached {e : StoreError} (live : l.Live tx) (caused : cause tx) :
    l.Counts cause ((CallStep.mk tx .commit (.answered (.error e))).ending? l (l.discard tx))
      (l.discard tx) := by
  have kept (p : FaultPoint) : l.struck? (l.discard tx) p = none := struck?_same rfl
  simp only [CallStep.ending?,kept,Option.isSome_none,Bool.false_eq_true,if_false]
  exact .ends live (fun _ => caused) (census_discard l tx)

theorem ending?_inside {tx : TxId} (inside : call.Inside) (progress : Progress call.Row) :
    (CallStep.mk tx call progress).ending? l l' = none := by
  cases call <;> first | rfl | cases inside

theorem Performs.counts (performs : l.Performs planned now d l')
    (live : d.call = .begin ∨ l.Live d.tx) : l.Counts (fun _ => planned) (d.ending? l l') l' := by
  cases performs with
  | starts tx call =>
    rcases call.inside_or with inside | rfl | rfl | rfl
    · rw [ending?_inside inside]
      exact .keeps ((start_affects l now tx call).census inside)
    · exact counts_begin l
    · have live := live.resolve_left (by simp)
      cases delayed : l.commitDelay with
      | some delay =>
        simp only [start,delayed]
        exact .keeps rfl
      | none =>
        simp only [start,delayed]
        exact counts_commit live
    · exact .ends (live.resolve_left (by simp)) (by simp) (census_rollback l tx)
  | @resumes tx call w out resumed =>
    rcases call.inside_or with inside | rfl | rfl | rfl
    · rw [ending?_inside inside]
      exact .keeps ((resume_affects resumed).census inside)
    · cases resumed_of_resume resumed
    · cases resumed_of_resume resumed with
      | commits => exact counts_commit (live.resolve_left (by simp))
    · cases resumed_of_resume resumed
  | fails failing tx call e =>
    rcases call.inside_or with inside | rfl | rfl | rfl
    · rw [ending?_inside inside]
      cases call <;> first | exact .keeps rfl | cases inside
    · exact .keeps rfl
    · exact counts_unreached (live.resolve_left (by simp)) failing
    · exact .ends (live.resolve_left (by simp)) (fun _ => failing) (census_discard l tx)

end Ledger

section Quitting
variable {l l' : Ledger} {now : Nat} {c c' : Client} {j j' : Job}

theorem Client.cancel_pending (cancelled : c.cancel l = some (l',c')) :
    ∃ q, c.pending? = some q ∧ (q.call ≠ .commit → l'.census = l.census) := by
  cases c with
  | idle | gone => cases cancelled
  | waiting tx call w =>
    refine ⟨⟨tx,call,w⟩,rfl,fun other => ?_⟩
    unfold cancel at cancelled
    split at cancelled
    · rename_i waits
      cases waits
      cases Option.some.inj cancelled
      rfl
    · rename_i waits
      cases waits
      cases Option.some.inj cancelled
      cases call <;> first | rfl | exact absurd rfl other
    · cases cancelled

theorem Client.live_of_pending {q : Pending} (consistent : c.Consistent l)
    (waits : c.pending? = some q) :
    l.Live q.tx := by
  cases consistent with
  | idle | gone => cases waits
  | waiting patient idle view =>
    cases Option.some.inj waits
    exact view.live

theorem Job.live_of_pending {q : Pending} (consistent : j.Consistent l)
    (stepped : j.step now l = some (l',j')) (quits : j.pending? now l = some q) :
    l.Live q.tx := by
  obtain ⟨_,tx,_,_,_,stage,owner,next,_⟩ := late_of_pending stepped quits
  obtain ⟨t,s,rfl,_,_,view⟩ := consistent_inside consistent stage next
  exact (show q.tx = t from owner) ▸ view.live

theorem Job.step_silent (stepped : j.step now l = some (l',j')) (silent : j.callStep? now l = none) :
    (l' = l ∧ j.pending? now l = none) ∨
      ∃ q, j.pending? now l = some q ∧ l' = l.giveUp q.tx q.call := by
  cases step_sound stepped with
  | wake stage => exact .inl ⟨rfl,by simp only [pending?,stage]⟩
  | @rest _ _ _ _ _ wait stage | @finish _ _ _ _ wait stage =>
    refine .inl ⟨rfl,?_⟩
    simp only [pending?,stage]
    cases wait <;> rfl
  | await stage next issued | answered stage next issued | waits stage next issued =>
    simp only [callStep?,stage,next,reduceCtorEq] at silent
  | resumed stage next resumed | waitsOn stage next resumed =>
    simp only [callStep?,stage,next,resumed,Option.map_some,reduceCtorEq] at silent
  | @late n deadline tx p w call onward stage next waiting =>
    refine .inr ⟨⟨tx.getD l.nextTx,call,w⟩,?_,rfl⟩
    simp only [pending?,stage,next,waiting,Option.isNone_none,if_true]

theorem Job.abort_of_free (consistent : j.Consistent l) (waits : j.stage.interruptible = true)
    (free : j.tx? = none) : (j.abort l).1 = l := by
  unfold abort
  cases stage : j.stage with
  | finished | cancelled | resting => rfl
  | running n tx d p w =>
    cases consistent n tx d p w stage with
    | opening => rfl
    | ended =>
      rw [stage] at waits
      cases waits
    | inside _ rests =>
      rw [tx?,stage,tx?_of_rests rests] at free
      cases free

end Quitting

namespace Turn
variable {t : Turn} {before after : Bank} {move : Move} {tx : TxId} {q : Pending}

def Forsakes (t : Turn) (tx : TxId) : Prop := t.abandons? = some tx ∨ t.Planned

theorem counts_abandoned (silent : t.callStep? = none) (abandons : t.abandons? = some tx)
    (live : t.before.ledger.Live tx) (gone : t.after.ledger = t.before.ledger.discard tx) :
    t.before.ledger.Counts t.Forsakes t.ending? t.after.ledger := by
  rw [ending?,silent]
  simp only [abandons,Option.map_some]
  exact .ends live (fun _ => .inl abandons) (gone ▸ Ledger.census_discard _ tx)

theorem counts_kept (silent : t.callStep? = none) (abandons : t.abandons? = none)
    (census : t.after.ledger.census = t.before.ledger.census) :
    t.before.ledger.Counts t.Forsakes t.ending? t.after.ledger := by
  rw [ending?,silent]
  simp only [abandons,Option.map_none]
  exact .keeps census

theorem counts_quits (silent : t.callStep? = none) (drops : t.drops? = none)
    (quits : t.quits? = some q) (live : t.before.ledger.Live q.tx)
    (commit : q.call = .commit → t.after.ledger = t.before.ledger.discard q.tx)
    (inside : q.call ≠ .commit → t.after.ledger.census = t.before.ledger.census) :
    t.before.ledger.Counts t.Forsakes t.ending? t.after.ledger := by
  have abandons : t.abandons? = if q.call = .commit then some q.tx else none := by
    rw [abandons?,drops,quits]
    rfl
  by_cases asked : q.call = .commit
  · rw [if_pos asked] at abandons
    exact counts_abandoned silent abandons live (commit asked)
  · rw [if_neg asked] at abandons
    exact counts_kept silent abandons (inside asked)

theorem counts_drops (silent : t.callStep? = none) (drops : t.drops? = some tx)
    (live : t.before.ledger.Live tx) (gone : t.after.ledger = t.before.ledger.discard tx) :
    t.before.ledger.Counts t.Forsakes t.ending? t.after.ledger :=
  counts_abandoned silent (by rw [abandons?,drops,Option.some_or]) live gone

theorem counts_abort (sound : before.Sound)
    (silent : (Turn.mk before (.abort i) after).callStep? = none)
    (advanced : before.advance (.abort i) = some after) :
    before.ledger.Counts (Turn.mk before (.abort i) after).Forsakes
      (Turn.mk before (.abort i) after).ending? after.ledger := by
  obtain ⟨j,l',j',found,aborted,same⟩ := Bank.updateJob_eq_some advanced
  have drops : (Turn.mk before (.abort i) after).drops? = j.tx? := by
    simp only [drops?,found,Option.bind_some]
  cases owns : j.tx? with
  | some tx =>
    rw [owns] at drops
    exact counts_drops silent drops (Actor.live_of_job (sound.job found) owns)
      (drops_transaction advanced drops)
  | none =>
    rw [owns] at drops
    split at aborted
    · rename_i waits
      have left := congrArg Prod.fst (Option.some.inj aborted)
      rw [Job.abort_of_free (sound.job found) waits owns] at left
      subst left same
      exact counts_kept silent (by rw [abandons?,drops]; rfl) rfl
    · cases aborted

theorem counts_step (sound : before.Sound)
    (did : (Turn.mk before (.step i) after).callStep? = none)
    (advanced : before.advance (.step i) = some after) :
    before.ledger.Counts (Turn.mk before (.step i) after).Forsakes
      (Turn.mk before (.step i) after).ending? after.ledger := by
  obtain ⟨j,l',j',found,stepped,same⟩ := Bank.updateJob_eq_some advanced
  have silent : j.callStep? before.clock before.ledger = none := by
    simpa only [callStep?,found,Option.bind_some] using did
  have quits : (Turn.mk before (.step i) after).quits? =
      j.pending? before.clock before.ledger := by
    simp only [quits?,found,Option.bind_some]
  subst same
  rcases Job.step_silent stepped silent with ⟨rfl,none⟩ | ⟨q,pending,rfl⟩
  · exact counts_kept did (by rw [abandons?,quits,none]; rfl) rfl
  · refine counts_quits did rfl (quits.trans pending)
      (Job.live_of_pending (sound.job found) stepped pending) ?_ ?_
    · intro asked
      exact Job.late_commit stepped pending asked
    · intro other
      obtain ⟨tx,call,w⟩ := q
      cases call <;> first | rfl | exact absurd rfl other

-- Every turn moves exactly one term of the account.
theorem counts (sound : before.Sound) (advanced : before.advance move = some after) :
    before.ledger.Counts (Turn.mk before move after).Forsakes (Turn.mk before move after).ending?
      after.ledger := by
  cases did : (Turn.mk before move after).callStep? with
  | some d =>
    rw [ending?,did]
    exact ((performs advanced did).counts (live_of_callStep? sound did)).mono fun _ => .inr
  | none =>
    cases move with
    | createAccount | arm | setLockHold | setCommitDelay | pass | launch =>
      cases Option.some.inj advanced
      exact counts_kept did rfl rfl
    | begin =>
      rw [ending?,did,Bank.ledger_begin advanced]
      exact Ledger.counts_begin _
    | call i call =>
      obtain ⟨c,l',c',found,made,rfl⟩ := Bank.updateClient_eq_some advanced
      simp only [callStep?,found,Option.bind_some] at did
      cases c <;> first | cases made | cases did
    | resume i =>
      obtain ⟨c,l',c',found,resumed,rfl⟩ := Bank.updateClient_eq_some advanced
      simp only [callStep?,found,Option.bind_some] at did
      cases c with
      | idle | gone => cases resumed
      | waiting tx call w =>
        obtain ⟨out,answered,_⟩ := Option.map_eq_some_iff.mp resumed
        simp only [Client.resumed?,answered,Option.map_some,reduceCtorEq] at did
    | cancel i =>
      obtain ⟨c,l',c',found,cancelled,rfl⟩ := Bank.updateClient_eq_some advanced
      obtain ⟨q,waits,inside⟩ := Client.cancel_pending cancelled
      refine counts_quits (q := q) did rfl ?_ (Client.live_of_pending (sound.client found) waits)
        (Client.cancel_commit cancelled waits) inside
      simp only [quits?,found,Option.bind_some,waits]
    | drop i =>
      obtain ⟨c,l',c',found,dropped,same⟩ := Bank.updateClient_eq_some advanced
      obtain ⟨tx,owns⟩ : ∃ tx, c.tx? = some tx := by
        cases c <;> first | exact ⟨_,rfl⟩ | cases dropped
      have drops : (Turn.mk before (.drop i) after).drops? = some tx := by
        simp only [drops?,found,Option.bind_some,owns]
      exact counts_drops did drops (Actor.live (x := .client c) (sound.client found) owns)
        (drops_transaction advanced drops)
    | abort i => exact counts_abort sound did advanced
    | step i => exact counts_step sound did advanced

theorem applied?_of_committed
    (counts : t.before.ledger.Counts t.Forsakes t.ending? t.after.ledger)
    (ends : t.ending? = some (tx,.committed)) : t.applied? = some tx := by
  have committed : t.after.ledger.committed = t.before.ledger.committed + 1 := by
    rw [ends] at counts
    cases counts with
    | ends live _ census => exact congrArg Census.committed census
  unfold ending? at ends
  cases did : t.callStep? with
  | none =>
    rw [did] at ends
    obtain ⟨_,_,same⟩ := Option.map_eq_some_iff.mp ends
    cases same
  | some d =>
    rw [did] at ends
    obtain ⟨asked,mine⟩ := CallStep.of_committed ends
    rw [applied?,did,Option.bind_some,if_pos ⟨asked,committed⟩,mine]

theorem books_of_uncommitted (sound : before.Sound) {history : List Turn}
    (runs : Runs {} history before) (advanced : before.advance move = some after)
    (uncommitted : ∀ tx, (Turn.mk before move after).ending? ≠ some (tx,.committed)) :
    after.ledger.books = before.ledger.books ∨
      ∃ owner currency balance, move = .createAccount owner currency balance := by
  by_cases working : ∀ owner currency balance, move ≠ .createAccount owner currency balance
  · refine .inl ?_
    have counted : after.ledger.committed ≠ before.ledger.committed + 1 := by
      intro counted
      have counts := counts sound advanced
      generalize (Turn.mk before move after).ending? = ending at counts uncommitted
      have same : after.ledger.census.committed = before.ledger.census.committed + 1 := counted
      cases counts with
      | keeps census | opens census =>
        rw [census] at same
        exact absurd same (Nat.ne_of_lt (Nat.lt_succ_self _))
      | @ends tx e _ live _ census =>
        rw [census] at same
        cases e with
        | committed => exact uncommitted tx rfl
        | undone | abandoned => exact absurd same (Nat.ne_of_lt (Nat.lt_succ_self _))
    have serves := serves sound advanced working
    generalize (Turn.mk before move after).callStep? = callStep at serves
    cases serves with
    | opens _ books => exact books
    | @works tx live _ works =>
      cases works _ ((runs_reckoned runs).drafts tx live) with
      | goesOn _ quiet | closes _ quiet => exact quiet.books
      | posts _ _ _ _ committed => exact absurd committed counted
  · push Not at working
    exact .inr working

end Turn

section Running
variable {history : List Turn} {b : Bank} {t : Turn} {tx : TxId} {e : Ending}

theorem ended_snoc (history : List Turn) (t : Turn) (e : Ending) :
    ended (history ++ [t]) e =
      ended history e ++ ((t.ending?.filter (·.2 = e)).map Prod.fst).toList := by
  unfold ended
  rw [List.filterMap_append]
  congr 1

-- Every transaction that has begun is open or has ended, and in one way only.
structure Placed (history : List Turn) (c : Census) : Prop where
  places : (c.live ++ ended history .committed ++ ended history .undone ++
    ended history .abandoned).Perm (List.range c.begun)
  committed : c.committed = (ended history .committed).length
  rolledBack : c.rolledBack = (ended history .undone).length

theorem count_filter_ne {xs : List TxId} (once : xs.Nodup) (member : tx ∈ xs) (a : TxId) :
    xs.count a = [tx].count a + (xs.filter (· ≠ tx)).count a := by
  have rest : xs.filter (· ≠ tx) = xs.erase tx := by
    rw [once.erase_eq_filter]
    exact List.filter_congr fun x _ => by by_cases here : x = tx <;> simp [here]
  rw [rest,←List.count_append]
  exact (List.perm_cons_erase member).count_eq a

theorem Placed.snoc (placed : Placed history t.before.ledger.census)
    (counts : t.before.ledger.Counts t.Forsakes t.ending? t.after.ledger) :
    Placed (history ++ [t]) t.after.ledger.census := by
  obtain ⟨places,committed,rolledBack⟩ := placed
  have once : t.before.ledger.census.live.Nodup := by
    have whole := places.nodup_iff.mpr List.nodup_range
    simp only [List.append_assoc] at whole
    exact whole.of_append_left
  have snoc := ended_snoc history t
  rw [List.perm_iff_count] at places
  simp only [List.count_append] at places
  generalize t.ending? = ending at counts snoc
  cases counts with
  | keeps census =>
    have same (e : Ending) : ended (history ++ [t]) e = ended history e :=
      (snoc e).trans (List.append_nil _)
    rw [census]
    refine ⟨List.perm_iff_count.mpr ?_,?_,?_⟩ <;> simp only [same,List.count_append]
    · exact places
    · exact committed
    · exact rolledBack
  | opens census =>
    have same (e : Ending) : ended (history ++ [t]) e = ended history e :=
      (snoc e).trans (List.append_nil _)
    rw [census]
    refine ⟨List.perm_iff_count.mpr fun a => ?_,?_,?_⟩ <;>
      simp only [same,Census.opened,List.count_append,List.range_succ]
    · have before := places a
      omega
    · exact committed
    · exact rolledBack
  | @ends tx e _ live _ census =>
    have member : tx ∈ t.before.ledger.census.live := by
      obtain ⟨x,found⟩ := live
      exact List.mem_map.mpr
        ⟨x,List.mem_of_find?_eq_some found,by simpa using List.find?_some found⟩
    have gains (e' : Ending) :
        ended (history ++ [t]) e' = ended history e' ++ if e = e' then [tx] else [] := by
      rw [snoc]
      by_cases same : e = e' <;> simp [Option.filter,same]
    rw [census]
    refine ⟨List.perm_iff_count.mpr fun a => ?_,?_,?_⟩
    · have before := places a
      have left := count_filter_ne once member a
      cases e <;> simp only [gains,Census.ended,List.count_append,reduceCtorEq,if_true,if_false,
        List.count_nil] <;> omega
    · cases e <;> simp [gains,Census.ended,committed]
    · cases e <;> simp [gains,Census.ended,rolledBack]

theorem runs_placed (runs : Runs {} history b) : Placed history b.ledger.census := by
  refine (runs.kept (P := fun history b => Placed history b.ledger.census) ?_ ?_).2
  · exact ⟨List.Perm.refl _,rfl,rfl⟩
  · intro history before move after _ sound advanced placed
    exact placed.snoc (t := ⟨before,move,after⟩) (Turn.counts sound advanced)

theorem forsakes_of_abandoned (runs : Runs {} history b) {earlier later : List Turn}
    (whole : history = earlier ++ t :: later) (ends : t.ending? = some (tx,.abandoned)) :
    t.Forsakes tx := by
  obtain ⟨before,advanced⟩ := runs.turn whole
  have counts : t.before.ledger.Counts t.Forsakes t.ending? t.after.ledger :=
    Turn.counts (runs_sound before) advanced
  rw [ends] at counts
  cases counts with
  | ends _ caused => exact caused rfl

theorem nothing_abandoned (runs : Runs {} history b)
    (kept : ∀ t ∈ history, t.abandons? = none ∧ ¬t.Planned) : ended history .abandoned = [] := by
  refine List.eq_nil_iff_forall_not_mem.mpr fun tx member => ?_
  obtain ⟨t,here,listed⟩ := List.mem_filterMap.mp member
  obtain ⟨⟨_,e⟩,filtered,rfl⟩ := Option.map_eq_some_iff.mp listed
  obtain ⟨ends,is⟩ := Option.filter_eq_some_iff.mp filtered
  obtain rfl : e = .abandoned := by simpa using is
  obtain ⟨earlier,later,whole⟩ := List.append_of_mem here
  obtain ⟨dropped,unplanned⟩ := kept t here
  rcases forsakes_of_abandoned runs whole ends with abandons | planned
  · cases dropped.symm.trans abandons
  · exact unplanned planned

theorem transactions_accounted (runs : Runs {} history b) :
    -- Every transaction that has begun has one place.
    (b.ledger.live.map Tx.id ++ ended history .committed ++ ended history .undone ++
      ended history .abandoned).Perm (List.range b.ledger.begun) ∧
    b.ledger.committed = (ended history .committed).length ∧
    b.ledger.rolledBack = (ended history .undone).length ∧
    b.ledger.begun = b.ledger.committed + b.ledger.rolledBack + b.ledger.live.length +
      (ended history .abandoned).length ∧
    (∀ tx, (ended history .committed).count tx + (ended history .undone).count tx ≤ 1) ∧
    (∀ earlier t later, history = earlier ++ t :: later →
      -- What is counted as committed was written, and nothing else was.
      (∀ tx, t.ending? = some (tx,.committed) → t.after.ledger.books = t.before.ledger.books.post
        { transfers := handedTo earlier tx .transfers, entries := handedTo earlier tx .entries
          deltas := granted earlier tx }) ∧
      ((∀ tx, t.ending? ≠ some (tx,.committed)) → t.after.ledger.books = t.before.ledger.books ∨
        ∃ owner currency balance, t.move = .createAccount owner currency balance) ∧
      -- What was abandoned was dropped, or given up in its commit, or never got so far.
      ∀ tx, t.ending? = some (tx,.abandoned) → t.abandons? = some tx ∨ t.Planned) ∧
    (b.ledger.live = [] → (∀ t ∈ history, t.abandons? = none ∧ ¬t.Planned) →
      b.ledger.begun = b.ledger.committed + b.ledger.rolledBack) := by
  obtain ⟨places,committed,rolledBack⟩ := runs_placed runs
  have total : b.ledger.begun = b.ledger.committed + b.ledger.rolledBack + b.ledger.live.length +
      (ended history .abandoned).length := by
    have length := places.length_eq
    simp only [List.length_append,List.length_range,Ledger.census,List.length_map] at length
    rw [show b.ledger.committed = _ from committed,show b.ledger.rolledBack = _ from rolledBack]
    omega
  refine ⟨places,committed,rolledBack,total,?_,?_,?_⟩
  · intro tx
    have placed := places.count_eq tx
    have once : (List.range b.ledger.census.begun).count tx ≤ 1 :=
      List.nodup_iff_count_le_one.mp List.nodup_range tx
    simp only [List.count_append] at placed
    omega
  · intro earlier t later whole
    obtain ⟨before,advanced⟩ := runs.turn whole
    have sound := runs_sound before
    have counts : t.before.ledger.Counts t.Forsakes t.ending? t.after.ledger :=
      Turn.counts sound advanced
    refine ⟨?_,?_,?_⟩
    · intro tx ends
      exact applied_writes before advanced (Turn.applied?_of_committed counts ends)
    · intro uncommitted
      exact Turn.books_of_uncommitted sound before advanced uncommitted
    · intro tx ends
      exact forsakes_of_abandoned runs whole ends
  · intro closed kept
    rw [total,closed,nothing_abandoned runs kept]
    rfl

end Running

-- Nine transactions. Two are committed, of which one is not told so; two are undone, one by a
-- commit that is refused; one is dropped, and one by hand and one by its deadline are given up while
-- their commits are held back; one goes with its job, and one is still open.
def lifetimes : List Move :=
  [.createAccount "alice" .eur 100,.createAccount "bob" .eur 0,
    .begin,.begin,.begin,.begin,.begin,
    .call 0 (.addToBalance 1 5),.call 0 .commit,
    .arm .commitAcknowledgement (.transient "lost"),.call 1 .commit,
    .arm .commit (.transient "conflict"),.call 2 .commit,.call 3 .rollback,.drop 4,
    .setCommitDelay (some (.ofMillis 10)),.begin,.call 5 .commit,.cancel 5,
    .launch { request := { source := 1, destination := 2, amount := 5 }, timeout := .ofMillis 5 },
    .step 0,.step 0,.step 0,.step 0,.step 0,.step 0,.step 0,.pass 5,.step 0,
    .launch { request := { source := 1, destination := 2, amount := 5 } },.step 1,.abort 1,.begin]

theorem lifetimes_end : (Bank.replay {} lifetimes).isSome = true := by decide +kernel

def lifetimesRun : List Turn × Bank := (Bank.replay {} lifetimes).get lifetimes_end

theorem transactions_accounted_lifetimes :
    Runs {} lifetimesRun.1 lifetimesRun.2 ∧
      ended lifetimesRun.1 .committed = [0,1] ∧ ended lifetimesRun.1 .undone = [2,3] ∧
      ended lifetimesRun.1 .abandoned = [4,5,6,7] ∧ lifetimesRun.2.ledger.live.map Tx.id = [8] ∧
      lifetimesRun.2.ledger.begun = 9 ∧ lifetimesRun.2.ledger.committed = 2 ∧
      lifetimesRun.2.ledger.rolledBack = 2 := by
  have runs : Runs {} lifetimesRun.1 lifetimesRun.2 := runs_of_ends lifetimes_end
  have committed : ended lifetimesRun.1 .committed = [0,1] := by decide +kernel
  have undone : ended lifetimesRun.1 .undone = [2,3] := by decide +kernel
  have abandoned : ended lifetimesRun.1 .abandoned = [4,5,6,7] := by decide +kernel
  have live : lifetimesRun.2.ledger.live.map Tx.id = [8] := by decide +kernel
  obtain ⟨_,counted,counted',total,_⟩ := transactions_accounted runs
  rw [committed] at counted
  rw [undone] at counted'
  have open' : lifetimesRun.2.ledger.live.length = 1 := by
    rw [←List.length_map (f := Tx.id),live]
    rfl
  rw [counted,counted',open',abandoned] at total
  exact ⟨runs,committed,undone,abandoned,live,total,counted,counted'⟩

end DoubleEntry
