import DoubleEntry.Proofs.Histories

namespace DoubleEntry

def Account.adding (a : Account) (us : List Update) : Account :=
  { a with balance := a.balance + Update.total us a.id }

namespace TxView
variable {s : TxView} {us : List Update}

theorem take_changes (s : TxView) (us : List Update) (id : AccountId) :
    ({ s with deltas := us } : TxView).take id = { s.take id with deltas := us } := by
  unfold take
  split <;> rfl

theorem awaiting_changes (s : TxView) (us : List Update) (w : Option Wait) (call : Call) :
    ({ s with deltas := us } : TxView).awaiting w call =
      { s.awaiting w call with deltas := us } := by
  rcases w with _ | (_ | _) <;> cases call <;> first | rfl | exact take_changes s us _

end TxView

namespace Ledger
variable {l l' : Ledger} {tx : TxId} {id : AccountId} {s : TxView} {us : List Update}

-- The drafts of the transaction are the committed accounts with these changes added, and it holds
-- the row of each.
structure Drafts (l : Ledger) (tx : TxId) (us : List Update) : Prop where
  holds : ∀ u ∈ us, l.Holds tx u.account
  drafted : ∀ u ∈ us, l.draft? tx u.account = (l.account? u.account).map (·.adding us)
  blank : ∀ id, (∀ u ∈ us, u.account ≠ id) → l.draft? tx id = none

theorem HasView.drafted (view : l.HasView tx s) : l.Drafts tx s.deltas := by
  refine ⟨?_,?_,?_⟩
  · intro u member
    exact view.holds _ (view.covered _ ⟨u,member,rfl⟩)
  · intro u member
    exact view.drafts _ ⟨u,member,rfl⟩
  · intro id untouched
    exact view.blank id fun ⟨u,member,same⟩ => untouched u member same

theorem Holds.account? (held : l.Holds tx id) : ∃ a, l.account? id = some a := by
  obtain ⟨r,found,_⟩ := held
  exact ⟨r.account,account?_of_row? found⟩

theorem Drafts.holds_of_draft? (drafts : l.Drafts tx us) (drafted : l.draft? tx id = some a) :
    l.Holds tx id := by
  by_cases touched : ∃ u ∈ us, u.account = id
  · obtain ⟨u,member,rfl⟩ := touched
    exact drafts.holds u member
  · rw [drafts.blank id fun u member same => touched ⟨u,member,same⟩] at drafted
    cases drafted

theorem Drafts.version? (drafts : l.Drafts tx us) (id : AccountId) :
    l.version? tx id = (l.account? id).map (·.adding us) := by
  have seen : l.version? tx id = (l.draft? tx id).or (l.account? id) := rfl
  rw [seen]
  by_cases touched : ∃ u ∈ us, u.account = id
  · obtain ⟨u,member,rfl⟩ := touched
    rw [drafts.drafted u member]
    cases l.account? u.account <;> rfl
  · have untouched : ∀ u ∈ us, u.account ≠ id := fun u member same => touched ⟨u,member,same⟩
    rw [drafts.blank id untouched,Option.none_or]
    cases found : l.account? id with
    | none => rfl
    | some a =>
      have named := id_of_account? found
      subst named
      rw [Option.map_some,Account.adding,Update.total_untouched untouched,Int.add_zero]

theorem Drafts.preserved (drafts : l.Drafts tx us) (preserved : PreservesTx tx l l') :
    l'.Drafts tx us := by
  refine ⟨?_,?_,?_⟩
  · intro u member
    exact preserved.holds (drafts.holds u member)
  · intro u member
    rw [draft?_of_tx? preserved.own,preserved.account? (drafts.holds u member)]
    exact drafts.drafted u member
  · intro id untouched
    rw [draft?_of_tx? preserved.own]
    exact drafts.blank id untouched

theorem Drafts.hasView (drafts : l.Drafts tx us) (view : l.HasView tx s) :
    l.HasView tx { s with deltas := us } := by
  refine ⟨view.inserted,?_,?_,?_,view.holds,view.seated,view.sought,view.apart⟩
  · rintro id ⟨u,member,rfl⟩
    exact drafts.drafted u member
  · intro id untouched
    exact drafts.blank id fun u member same => untouched ⟨u,member,same⟩
  · rintro id ⟨u,member,rfl⟩
    -- What has a draft was touched before, and what was touched is held.
    obtain ⟨a,found⟩ := (drafts.holds u member).account?
    have drafted := drafts.drafted u member
    rw [found,Option.map_some] at drafted
    by_cases touched : s.Touches u.account
    · exact view.covered _ touched
    · rw [view.blank _ touched] at drafted
      cases drafted

theorem Drafts.hasView_awaiting (drafts : l.Drafts tx us)
    (view : l.HasView tx (s.awaiting w call)) :
    l.HasView tx (({ s with deltas := us } : TxView).awaiting w call) := by
  rw [TxView.awaiting_changes]
  exact drafts.hasView view

end Ledger

-- A call for a transaction, and what came of it in one turn.
structure CallStep where
  tx : TxId
  call : Call
  progress : Progress call.Row

def CallStep.granted : CallStep → List Update
  | ⟨_,.addToBalance id delta,.answered (.ok _)⟩ => [⟨id,delta⟩]
  | _ => []

def CallStep.Acknowledged : CallStep → Prop
  | ⟨_,.commit,.answered (.ok _)⟩ => True
  | _ => False

theorem CallStep.granted_error (tx : TxId) (call : Call) (e : StoreError) :
    (CallStep.mk tx call (.answered (.error e))).granted = [] := by
  cases call <;> rfl

theorem CallStep.granted_waiting (tx : TxId) (call : Call) (w : Wait) :
    (CallStep.mk tx call (.waiting w)).granted = [] := by
  cases call <;> rfl

theorem CallStep.call_of_acknowledged {d : CallStep} (acknowledged : d.Acknowledged) :
    d.call = .commit := by
  obtain ⟨tx,call,progress⟩ := d
  cases call <;> first | rfl | cases acknowledged

theorem CallStep.not_acknowledged {d : CallStep} (other : d.call ≠ .commit) : ¬d.Acknowledged :=
  fun acknowledged => other (call_of_acknowledged acknowledged)

namespace Ledger
variable {l l' : Ledger} {tx : TxId} {id : AccountId} {s : TxView} {us : List Update} {now : Nat}

-- What one turn does for the transaction that it serves, which has been granted these changes.
inductive Works (l : Ledger) (tx : TxId) (us : List Update) : Option CallStep → Ledger → Prop where
  | goesOn {callStep : Option CallStep} {l' : Ledger} (acts : l.Acts tx l') (quiet : l.Quiet l')
      (silent : ∀ d ∈ callStep, ¬d.Acknowledged)
      (drafts : l'.Drafts tx (us ++ callStep.elim [] CallStep.granted)) : Works l tx us callStep l'
  | closes {callStep : Option CallStep} {l' : Ledger} (closes : l.Closes tx l') (quiet : l.Quiet l')
      (silent : ∀ d ∈ callStep, ¬d.Acknowledged) (nothing : callStep.elim [] CallStep.granted = []) :
      Works l tx us callStep l'
  | posts {callStep : CallStep} {l' : Ledger} (closes : l.Closes tx l')
      (asked : callStep.call = .commit)
      (nothing : callStep.granted = [])
      (accounts : l'.books.accounts = l.books.accounts.map (·.adding us))
      (committed : l'.committed = l.committed + 1) : Works l tx us (some callStep) l'

theorem silent_of_inside {call : Call} (inside : call.Inside) (progress : Progress call.Row) :
    ∀ d ∈ some (CallStep.mk tx call progress), ¬d.Acknowledged := by
  intro d made
  cases Option.some.inj made
  refine CallStep.not_acknowledged ?_
  rintro rfl
  cases inside

theorem Yields.works {call : Call} {out : Ledger × Progress call.Row} (inside : call.Inside)
    (yields : l.Yields tx s call out) : l.Works tx s.deltas (some ⟨tx,call,out.2⟩) out.1 := by
  have silent : ∀ d ∈ some (CallStep.mk tx call out.2), ¬d.Acknowledged :=
    silent_of_inside inside out.2
  cases yields with
  | @row l' row acts quiet view _ =>
    refine .goesOn acts quiet silent ?_
    have drafts := view.drafted
    cases call with
    | begin | commit | rollback => cases inside
    | insertTransfer | insertEntry => exact (List.append_nil s.deltas).symm ▸ drafts
    | addToBalance => exact drafts
  | @error l' s' e acts quiet view keeps =>
    refine .goesOn acts quiet silent ?_
    simp only [Option.elim_some,CallStep.granted_error,List.append_nil]
    exact keeps.deltas ▸ view.drafted
  | @waits l' w acts quiet own view =>
    refine .goesOn acts quiet silent ?_
    simp only [Option.elim_some,CallStep.granted_waiting,List.append_nil]
    exact s.deltas_awaiting (some w) call ▸ view.drafted

theorem Settles.works {out : Ledger × Progress Unit} (sound : l.Sound) (view : l.HasView tx s)
    (settles : l.Settles tx s out) : l.Works tx s.deltas (some ⟨tx,.commit,out.2⟩) out.1 := by
  cases settles with
  | refused closes quiet =>
    refine .closes closes quiet ?_ rfl
    rintro d ⟨⟩ ⟨⟩
  | posted closes posts | unacknowledged closes posts =>
    exact .posts closes rfl rfl (congrArg Books.accounts posts.books) posts.committed
  | waits =>
    refine .goesOn (.refl sound tx) (.refl l) ?_ ?_
    · rintro d ⟨⟩ ⟨⟩
    · exact (List.append_nil s.deltas).symm ▸ view.drafted

theorem works_closing (closes : l.Closes tx l') (quiet : l.Quiet l') (us : List Update) :
    l.Works tx us none l' :=
  .closes closes quiet (by simp) rfl

theorem works_rollback (closes : l.Closes tx l') (quiet : l.Quiet l') (us : List Update)
    (progress : Progress Unit) : l.Works tx us (some ⟨tx,.rollback,progress⟩) l' := by
  refine .closes closes quiet ?_ rfl
  rintro d ⟨⟩ ⟨⟩

theorem HasView.works_left (sound : l.Sound) (view : l.HasView tx s) (idle : s.sought = none) :
    l.Works tx s.deltas none (l.leaveQueues tx) := by
  refine .goesOn (acts_leaveQueues sound tx) (quiet_leaveQueues l tx) (by simp) ?_
  have unsought : ∀ id, s.sought = some id → ¬l.Holds tx id := by
    intro id sought
    rw [idle] at sought
    cases sought
  exact (List.append_nil s.deltas).symm ▸ (view.leaveQueues unsought).drafted

theorem HasView.works_released (sound : l.Sound)
    (view : l.HasView tx { s with sought := some id }) :
    l.Works tx s.deltas none (l.updateRow id (Row.release tx)) := by
  have quiet : l.Quiet (l.updateRow id (Row.release tx)) :=
    ⟨books_updateRow l id (Row.account_release tx),rfl,rfl⟩
  refine .goesOn (acts_release sound tx id) quiet (by simp) ?_
  exact (List.append_nil s.deltas).symm ▸ (view.release sound).drafted

-- What one turn does, whichever transaction it serves.
inductive Serves (l : Ledger) (callStep : Option CallStep) (l' : Ledger) : Prop where
  | works {tx : TxId} (live : l.Live tx) (mine : ∀ d ∈ callStep, d.tx = tx)
      (works : ∀ us, l.Drafts tx us → l.Works tx us callStep l') : Serves l callStep l'
  | opens (acts : l.Acts l.nextTx l') (books : l'.books = l.books)
      (committed : l'.committed = l.committed) (silent : ∀ d ∈ callStep, ¬d.Acknowledged)
      (nothing : callStep.elim [] CallStep.granted = [])
      (drafts : l'.Live l.nextTx → l'.Drafts l.nextTx []) : Serves l callStep l'

theorem serves_arranged (sound : l.Sound) (rows : l'.rows = l.rows) (live : l'.live = l.live)
    (begun : l'.begun = l.begun) (books : l'.books = l.books)
    (committed : l'.committed = l.committed) : l.Serves none l' := by
  have acts : l.Acts l.nextTx l' := .of_same sound rows live begun _
  refine .opens acts books committed (by simp) rfl fun opened => ?_
  have next : l'.nextTx = l.nextTx := begun
  exact absurd (next.symm ▸ opened) (not_live_nextTx acts.sound)

theorem serves_same (sound : l.Sound) : l.Serves none l :=
  serves_arranged sound rfl rfl rfl rfl rfl

theorem begin_serves (sound : l.Sound) : l.Serves none l.begin.1 := by
  obtain ⟨acts,quiet,opened⟩ := begin_opens sound
  refine .opens acts quiet.books quiet.committed (by simp) rfl fun live => ?_
  rcases opened with ⟨_,view⟩ | ⟨e,_,gone⟩
  · exact view.drafted
  · exact absurd live gone

end Ledger

namespace Client
variable {l l' : Ledger} {tx : TxId} {now : Nat} {c c' : Client}

def made? (now : Nat) (l : Ledger) (call : Call) : Client → Option CallStep
  | idle tx => some ⟨tx,call,(l.start now tx call).2⟩
  | _ => none

def resumed? (now : Nat) (l : Ledger) : Client → Option CallStep
  | waiting tx call w => (l.resume now tx call w).map fun out => ⟨tx,call,out.2⟩
  | _ => none

theorem settle_fst (tx : TxId) (call : Call) (out : Ledger × Progress call.Row) :
    (settle tx call out).1 = out.1 := by
  obtain ⟨l,_ | _⟩ := out <;> rfl

theorem make_serves (sound : l.Sound) (consistent : c.Consistent l)
    (made : c.make now l call = some (l',c')) :
    l.Serves (c.made? now l call) l' := by
  cases consistent with
  | waiting | gone => cases made
  | @idle tx s view idle =>
    simp only [make] at made
    split at made
    · cases made
    · have settled := congrArg Prod.fst (Option.some.inj made)
      rw [settle_fst] at settled
      subst settled
      refine .works view.live (by simp [made?]) ?_
      intro us drafts
      have view' := drafts.hasView view
      rcases call.inside_or with inside | rfl | rfl | rfl
      · exact (Ledger.start_yields sound view' idle inside).works inside
      · contradiction
      · exact (Ledger.start_settles sound view').works sound view'
      · have closes := Ledger.closes_rollback sound tx
        exact Ledger.works_rollback closes (Ledger.quiet_rollback l tx) us _

theorem resume_serves (sound : l.Sound) (consistent : c.Consistent l)
    (resumed : c.resume now l = some (l',c')) : l.Serves (c.resumed? now l) l' := by
  cases consistent with
  | idle | gone => cases resumed
  | @waiting tx s call w patient idle view =>
    obtain ⟨out,answered,settled⟩ := Option.map_eq_some_iff.mp resumed
    have settled := congrArg Prod.fst settled
    rw [settle_fst] at settled
    subst settled
    have callStep : resumed? now l (.waiting tx call w) = some ⟨tx,call,out.2⟩ := by
      rw [resumed?,answered,Option.map_some]
    rw [callStep]
    refine .works view.live (by simp) ?_
    intro us drafts
    have view' := drafts.hasView_awaiting view
    rcases patient with inside | rfl
    · exact (Ledger.resume_yields sound view' idle inside answered).works inside
    · rw [TxView.awaiting_commit] at view'
      exact (Ledger.resume_settles sound view' answered).works sound view'

theorem cancel_serves (sound : l.Sound) (consistent : c.Consistent l)
    (cancelled : c.cancel l = some (l',c')) : l.Serves none l' := by
  cases consistent with
  | idle | gone => cases cancelled
  | @waiting tx s call w patient idle view =>
    refine .works view.live (by simp) ?_
    intro us drafts
    have view' := drafts.hasView_awaiting view
    have left (idle' : (s.awaiting (some w) call).sought = none) :
        l.Works tx us none (l.leaveQueues tx) := by
      rw [TxView.awaiting_changes] at view'
      exact view'.works_left sound idle'
    cases call with
    | begin | rollback => simp [Call.Inside] at patient
    | commit =>
      cases Option.some.inj cancelled
      exact Ledger.works_closing (Ledger.closes_discard sound tx) (Ledger.quiet_discard l tx) us
    | insertTransfer | insertEntry =>
      cases Option.some.inj cancelled
      exact left (by cases w <;> exact idle)
    | addToBalance id delta =>
      cases w with
      | «until» time =>
        cases Option.some.inj cancelled
        exact left ((TxView.sought_take s id).trans idle)
      | row asked =>
        cases Option.some.inj cancelled
        exact view'.works_released sound

theorem drop_serves (sound : l.Sound) (consistent : c.Consistent l)
    (dropped : c.drop l = some (l',c')) :
    l.Serves none l' := by
  cases consistent with
  | gone => cases dropped
  | @idle tx s view | @waiting tx s _ _ _ _ view =>
    cases Option.some.inj dropped
    refine .works view.live (by simp) fun us _ => ?_
    exact Ledger.works_closing (Ledger.closes_discard sound tx) (Ledger.quiet_discard l tx) us

end Client

namespace Job
variable {l l' : Ledger} {j j' : Job} {now n d : Nat} {tx : Option TxId} {p : Phase} {call : Call}

def callStep? (now : Nat) (l : Ledger) (j : Job) : Option CallStep :=
  match j.stage with
  | .running _ tx _ p w =>
    match p.next j.plan.movement j.plan.timeout,w with
    | .ended _,_ => none
    | .await call _,_ | .awaitBefore call _,none =>
      some ⟨tx.getD l.nextTx,call,(j.issue l now (tx.getD l.nextTx) call).2⟩
    | .awaitBefore call _,some w =>
      (l.resume now (tx.getD l.nextTx) call w).map fun out => ⟨tx.getD l.nextTx,call,out.2⟩
  | _ => none

theorem serves_awaited {w : Option Wait} {onward : Except StoreError call.Row → Phase}
    {answer : Except StoreError call.Row} (sound : l.Sound) (consistent : j.Consistent l)
    (stage : j.stage = .running n tx d p w)
    (next : p.next j.plan.movement j.plan.timeout = .await call onward)
    (issued : j.issue l now (tx.getD l.nextTx) call = (l',.answered answer)) :
    l.Serves (some ⟨tx.getD l.nextTx,call,.answered answer⟩) l' := by
  cases consistent _ _ _ _ _ stage with
  | ended => simp only [Phase.next,reduceCtorEq] at next
  | opening checked =>
    cases next
    obtain ⟨acts,quiet,opened⟩ := issue_begin sound issued
    refine .opens acts quiet.books quiet.committed (by rintro d ⟨⟩ ⟨⟩) rfl fun live => ?_
    rcases opened with ⟨_,view⟩ | ⟨e,_,gone⟩
    · exact view.drafted
    · exact absurd live gone
  | inside checked rests view =>
    rename_i t s
    cases p <;> simp only [Phase.next,reduceCtorEq] at next
    · cases rests
    · cases next
      obtain ⟨closes,quiet⟩ := issue_rollback sound issued
      exact .works view.live (by simp) fun us _ => Ledger.works_rollback closes quiet us _

theorem serves_issued {onward : Option (Except StoreError call.Row) → Phase}
    {progress : Progress call.Row} (sound : l.Sound) (consistent : j.Consistent l)
    (stage : j.stage = .running n tx d p none)
    (next : p.next j.plan.movement j.plan.timeout = .awaitBefore call onward)
    (issued : j.issue l now (tx.getD l.nextTx) call = (l',progress)) :
    l.Serves (some ⟨tx.getD l.nextTx,call,progress⟩) l' := by
  obtain ⟨t,s,rfl,_,rests,view⟩ := consistent_inside consistent stage next
  rw [Option.getD_some] at issued
  refine .works view.live (by simp) ?_
  intro us drafts
  have view' := drafts.hasView view
  rcases Phase.inside_or_committing next with ⟨rfl,inside,_,_⟩ | ⟨r,rfl⟩
  · have works := (issue_yields j now sound view' rests.idle inside).works inside
    rwa [issued] at works
  · cases next
    have works := (issue_settles j now sound view').works sound view'
    rwa [issued] at works

theorem serves_resumed {w : Wait} {onward : Option (Except StoreError call.Row) → Phase}
    {progress : Progress call.Row} (sound : l.Sound) (consistent : j.Consistent l)
    (stage : j.stage = .running n tx d p (some w))
    (next : p.next j.plan.movement j.plan.timeout = .awaitBefore call onward)
    (resumed : l.resume now (tx.getD l.nextTx) call w = some (l',progress)) :
    l.Serves (some ⟨tx.getD l.nextTx,call,progress⟩) l' := by
  obtain ⟨t,s,rfl,_,rests,view⟩ := consistent_inside consistent stage next
  refine .works view.live (by simp) ?_
  intro us drafts
  have view' := drafts.hasView_awaiting view
  rcases Phase.inside_or_committing next with ⟨rfl,inside,_,_⟩ | ⟨r,rfl⟩
  · exact (Ledger.resume_yields sound view' rests.idle inside resumed).works inside
  · cases next
    rw [Phase.asks,TxView.awaiting_commit] at view'
    exact (Ledger.resume_settles sound view' resumed).works sound view'

theorem serves_late {w : Wait} {onward : Option (Except StoreError call.Row) → Phase}
    (sound : l.Sound) (consistent : j.Consistent l) (stage : j.stage = .running n tx d p (some w))
    (next : p.next j.plan.movement j.plan.timeout = .awaitBefore call onward)
    (waiting : l.resume now (tx.getD l.nextTx) call w = none) :
    l.Serves none (l.giveUp (tx.getD l.nextTx) call) := by
  obtain ⟨t,s,rfl,_,rests,view⟩ := consistent_inside consistent stage next
  refine .works view.live (by simp) ?_
  intro us drafts
  rcases Phase.inside_or_committing next with ⟨rfl,inside,_,_⟩ | ⟨r,rfl⟩
  · have view' := drafts.hasView_awaiting view
    obtain ⟨acts,quiet,s',kept,keeps⟩ :=
      Ledger.giveUp_keeps sound view' rests.idle inside waiting
    refine .goesOn acts quiet (by simp) ?_
    have same : s'.deltas = us ++ [] := keeps.deltas.trans (List.append_nil us).symm
    exact same ▸ kept.drafted
  · cases next
    exact Ledger.works_closing (Ledger.closes_discard sound t) (Ledger.quiet_discard l t) us

theorem step_serves (sound : l.Sound) (consistent : j.Consistent l)
    (stepped : j.step now l = some (l',j')) :
    l.Serves (j.callStep? now l) l' := by
  cases step_sound stepped with
  | wake stage | rest stage | finish stage =>
    simp only [callStep?,stage]
    exact Ledger.serves_same sound
  | await stage next issued =>
    simp only [callStep?,stage,next,issued]
    exact serves_awaited sound consistent stage next issued
  | answered stage next issued | waits stage next issued =>
    simp only [callStep?,stage,next,issued]
    exact serves_issued sound consistent stage next issued
  | resumed stage next resumed | waitsOn stage next resumed =>
    simp only [callStep?,stage,next,resumed]
    exact serves_resumed sound consistent stage next resumed
  | late stage next waiting =>
    simp only [callStep?,stage,next,waiting]
    exact serves_late sound consistent stage next waiting

theorem abort_serves (sound : l.Sound) (consistent : j.Consistent l)
    (free : j.stage.interruptible = true) :
    l.Serves none (j.abort l).1 := by
  obtain ⟨closes,quiet,_⟩ := abort_closes sound consistent free
  cases owns : j.tx? with
  | some t =>
    have acting : j.acting l = t := by rw [Job.acting,owns]; rfl
    rw [acting] at closes
    exact .works (Actor.live_of_job consistent owns) (by simp) fun us _ =>
      Ledger.works_closing closes quiet us
  | none =>
    have acting : j.acting l = l.nextTx := by rw [Job.acting,owns]; rfl
    rw [acting] at closes
    refine .opens closes.acts quiet.books quiet.committed (by simp) rfl fun live => ?_
    exact absurd live closes.gone

end Job

namespace Turn

def callStep? (t : Turn) : Option CallStep :=
  match t.move with
  | .step i => t.before.jobs[i]?.bind (·.callStep? t.before.clock t.before.ledger)
  | .call i call => t.before.clients[i]?.bind (·.made? t.before.clock t.before.ledger call)
  | .resume i => t.before.clients[i]?.bind (·.resumed? t.before.clock t.before.ledger)
  | _ => none

theorem serves {before after : Bank} {move : Move} (sound : before.Sound)
    (advanced : before.advance move = some after)
    (working : ∀ owner currency balance, move ≠ .createAccount owner currency balance) :
    before.ledger.Serves (Turn.mk before move after).callStep? after.ledger := by
  cases move with
  | createAccount => exact absurd rfl (working _ _ _)
  | arm | setLockHold | setCommitDelay | pass | launch =>
    cases Option.some.inj advanced
    exact Ledger.serves_arranged sound.ledger rfl rfl rfl rfl rfl
  | step i =>
    obtain ⟨j,l',j',found,stepped,rfl⟩ := Bank.updateJob_eq_some advanced
    simp only [callStep?,found,Option.bind_some]
    exact Job.step_serves sound.ledger (sound.job found) stepped
  | abort i =>
    obtain ⟨j,l',j',found,aborted,rfl⟩ := Bank.updateJob_eq_some advanced
    split at aborted
    · rename_i free
      have serves := Job.abort_serves sound.ledger (sound.job found) free
      rwa [Option.some.inj aborted] at serves
    · cases aborted
  | begin =>
    rw [Bank.ledger_begin advanced]
    exact Ledger.begin_serves sound.ledger
  | call i call =>
    obtain ⟨c,l',c',found,made,rfl⟩ := Bank.updateClient_eq_some advanced
    simp only [callStep?,found,Option.bind_some]
    exact Client.make_serves sound.ledger (sound.client found) made
  | resume i =>
    obtain ⟨c,l',c',found,resumed,rfl⟩ := Bank.updateClient_eq_some advanced
    simp only [callStep?,found,Option.bind_some]
    exact Client.resume_serves sound.ledger (sound.client found) resumed
  | cancel i =>
    obtain ⟨c,l',c',found,cancelled,rfl⟩ := Bank.updateClient_eq_some advanced
    exact Client.cancel_serves sound.ledger (sound.client found) cancelled
  | drop i =>
    obtain ⟨c,l',c',found,dropped,rfl⟩ := Bank.updateClient_eq_some advanced
    exact Client.drop_serves sound.ledger (sound.client found) dropped

end Turn
end DoubleEntry
