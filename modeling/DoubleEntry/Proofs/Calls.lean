import DoubleEntry.Proofs.TxViews

namespace DoubleEntry

def Call.Inside : Call → Prop
  | insertTransfer _ _ _ | insertEntry _ _ | addToBalance _ _ => True
  | begin | commit | rollback => False

-- Nothing but a lock has been added.
structure TxView.Keeps (s s' : TxView) : Prop where
  transfers : s'.transfers = s.transfers
  entries : s'.entries = s.entries
  deltas : s'.deltas = s.deltas
  held : ∀ id ∈ s.held, id ∈ s'.held
  idle : s'.sought = none

theorem TxView.Keeps.refl {s : TxView} (idle : s.sought = none) : s.Keeps s :=
  ⟨rfl,rfl,rfl,fun _ member => member,idle⟩

namespace Ledger
variable {l l' l'' : Ledger} {tx : TxId} {id : AccountId} {s s' : TxView} {now : Nat}

-- What is committed stays as it is, and no acknowledgement is lost.
structure Quiet (l l' : Ledger) : Prop where
  books : l'.books = l.books
  committed : l'.committed = l.committed
  acknowledgement : l'.fault? .commitAcknowledgement = l.fault? .commitAcknowledgement

theorem Quiet.refl (l : Ledger) : Quiet l l := ⟨rfl,rfl,rfl⟩

theorem Quiet.trans (one : Quiet l l') (two : Quiet l' l'') : Quiet l l'' :=
  ⟨two.books.trans one.books,two.committed.trans one.committed,
    two.acknowledgement.trans one.acknowledgement⟩

def Grows (l l' : Ledger) : Prop :=
  l.entries <+: l'.entries ∧ l.transfers <+: l'.transfers

theorem Quiet.grows (quiet : Quiet l l') : Grows l l' := by
  have entries : l'.entries = l.entries := congrArg Books.entries quiet.books
  have transfers : l'.transfers = l.transfers := congrArg Books.transfers quiet.books
  exact ⟨entries ▸ List.prefix_rfl,transfers ▸ List.prefix_rfl⟩

theorem account?_books (l : Ledger) (id : AccountId) :
    l.account? id = l.books.accounts.find? (·.id = id) := by
  simp only [account?,row?,books,List.find?_map]
  rfl

theorem account?_post (posted : l'.books = l.books.post s) (id : AccountId) :
    l'.account? id = (l.account? id).map s.draft := by
  rw [account?_books,account?_books,posted]
  simp only [Books.post,List.find?_map]
  rfl

theorem fault?_disarm (l : Ledger) (p : FaultPoint) : (l.disarm p).fault? p = none := by
  unfold fault? disarm
  rw [Option.map_eq_none_iff,List.find?_eq_none]
  intro pair member
  have kept := (List.mem_filter.mp member).2
  simpa using kept

theorem fault?_disarm_ne (l : Ledger) {p q : FaultPoint} (other : q ≠ p) :
    (l.disarm p).fault? q = l.fault? q := by
  unfold fault? disarm
  rw [List.find?_filter]
  congr 2
  funext pair
  by_cases here : pair.1 = q <;> simp [here,other]

theorem quiet_disarm (l : Ledger) {p : FaultPoint} (other : .commitAcknowledgement ≠ p) :
    Quiet l (l.disarm p) := ⟨rfl,rfl,fault?_disarm_ne l other⟩

theorem quiet_discard (l : Ledger) (tx : TxId) : Quiet l (l.discard tx) :=
  ⟨books_discard l tx,rfl,rfl⟩

theorem quiet_leaveQueues (l : Ledger) (tx : TxId) : Quiet l (l.leaveQueues tx) :=
  ⟨books_leaveQueues l tx,rfl,rfl⟩

def Shows (l : Ledger) (tx : TxId) : (call : Call) → call.Row → Prop
  | .insertTransfer source destination amount,row =>
    row.source = source ∧ row.destination = destination ∧ row.amount = amount
  | .insertEntry account amount,row => row.account = account ∧ row.amount = amount
  | .addToBalance id _,row => l.draft? tx id = some row
  | _,_ => True

inductive Yields (l : Ledger) (tx : TxId) (s : TxView) (call : Call) :
    Ledger × Progress call.Row → Prop where
  | row {l' : Ledger} {row : call.Row} (acts : Acts tx l l') (quiet : Quiet l l')
      (view : l'.HasView tx (s.after call row)) (shows : l'.Shows tx call row) :
      Yields l tx s call (l',.answered (.ok row))
  | error {l' : Ledger} {s' : TxView} {e : StoreError} (acts : Acts tx l l') (quiet : Quiet l l')
      (view : l'.HasView tx s') (keeps : s.Keeps s') :
      Yields l tx s call (l',.answered (.error e))
  | waits {l' : Ledger} {w : Wait} (acts : Acts tx l l') (quiet : Quiet l l')
      (own : l'.tx? tx = l.tx? tx) (view : l'.HasView tx (s.awaiting (some w) call)) :
      Yields l tx s call (l',.waiting w)

theorem guarded_cases (l : Ledger) (p : FaultPoint) (work : Ledger × Except StoreError α) :
    (∃ e, l.fault? p = some e ∧ l.guarded p work = (l.disarm p,.error e)) ∨
      (l.fault? p = none ∧ l.guarded p work = work) := by
  unfold guarded
  cases armed : l.fault? p with
  | some e => exact .inl ⟨e,rfl,rfl⟩
  | none => exact .inr ⟨rfl,rfl⟩

theorem yields_disarm (sound : l.Sound) (view : l.HasView tx s) (idle : s.sought = none)
    {p : FaultPoint} (other : .commitAcknowledgement ≠ p) (call : Call) (e : StoreError) :
    l.Yields tx s call (l.disarm p,.answered (.error e)) :=
  .error (acts_disarm sound p tx) (quiet_disarm l other) (view.of_same rfl rfl) (.refl idle)

theorem yields_same (sound : l.Sound) (view : l.HasView tx s) (idle : s.sought = none)
    (call : Call) (e : StoreError) : l.Yields tx s call (l,.answered (.error e)) :=
  .error (.refl sound tx) (.refl l) view (.refl idle)

theorem insertTransfer_yields (sound : l.Sound) (view : l.HasView tx s) (idle : s.sought = none) :
    l.Yields tx s (.insertTransfer source destination amount)
      (l.start now tx (.insertTransfer source destination amount)) := by
  simp only [start,insertTransfer]
  rcases guarded_cases l .insertTransfer _ with ⟨e,_,failed⟩ | ⟨_,worked⟩
  · rw [failed]
    exact yields_disarm sound view idle (by decide) _ e
  · rw [worked]
    split
    · exact yields_same sound view idle _ _
    · split
      · exact yields_same sound view idle _ _
      · obtain ⟨t,found,transfers,entries⟩ := view.inserted
        let row : Transfer := ⟨l.transferSeq + 1,source,destination,amount,.ofMillis now⟩
        let f : Tx → Tx := fun t => { t with transfers := t.transfers ++ [row] }
        apply Yields.row
        · exact acts_insert (f := f) sound (fun _ => rfl) rfl rfl rfl
        · exact ⟨rfl,rfl,rfl⟩
        · have changed : s.after (.insertTransfer source destination amount) row =
              { s with transfers := (f t).transfers, entries := (f t).entries } := by
            simp only [TxView.after,f,transfers,entries]
          rw [changed]
          exact view.insert (fun _ => rfl) found rfl rfl rfl
        · exact ⟨rfl,rfl,rfl⟩

theorem insertEntry_yields (sound : l.Sound) (view : l.HasView tx s) (idle : s.sought = none) :
    l.Yields tx s (.insertEntry account amount) (l.start now tx (.insertEntry account amount)) := by
  simp only [start,insertEntry]
  rcases guarded_cases l .insertEntry _ with ⟨e,_,failed⟩ | ⟨_,worked⟩
  · rw [failed]
    exact yields_disarm sound view idle (by decide) _ e
  · rw [worked]
    split
    · exact yields_same sound view idle _ _
    · obtain ⟨t,found,transfers,entries⟩ := view.inserted
      let row : Entry := ⟨l.entrySeq + 1,account,amount,.ofMillis now⟩
      let f : Tx → Tx := fun t => { t with entries := t.entries ++ [row] }
      apply Yields.row
      · exact acts_insert (f := f) sound (fun _ => rfl) rfl rfl rfl
      · exact ⟨rfl,rfl,rfl⟩
      · have changed : s.after (.insertEntry account amount) row =
            { s with transfers := (f t).transfers, entries := (f t).entries } := by
          simp only [TxView.after,f,transfers,entries]
        rw [changed]
        exact view.insert (fun _ => rfl) found rfl rfl rfl
      · exact ⟨rfl,rfl⟩

theorem applyDelta_yields (before : Acts tx l l') (quiet : Quiet l l')
    (view : l'.HasView tx (s.take id)) (idle : s.sought = none) :
    l.Yields tx s (.addToBalance id delta)
      ((l'.applyDelta tx id delta).1,.answered (l'.applyDelta tx id delta).2) := by
  have failed : ∀ e, l.Yields tx s (.addToBalance id delta) (l',.answered (.error e)) := by
    intro e
    refine .error before quiet view ⟨by simp,by simp,by simp,?_,by simpa using idle⟩
    intro seen member
    exact TxView.mem_held_take.mpr (.inl member)
  unfold applyDelta
  cases seen : l'.version? tx id with
  | none => exact failed _
  | some account =>
    dsimp only
    cases sum : Bigint.add? account.balance delta with
    | none => exact failed _
    | some balance =>
      obtain ⟨_,rfl⟩ := Bigint.add?_eq_some.mp sum
      have held : id ∈ (s.take id).held := TxView.mem_held_take.mpr (.inr rfl)
      have added := view.add held seen delta
      apply Yields.row
      · exact before.trans (acts_updateTx before.sound fun _ => rfl)
      · exact quiet.trans ⟨rfl,rfl,rfl⟩
      · simpa only [TxView.after,TxView.change,TxView.deltas_take] using added
      · obtain ⟨t,found,_⟩ := view.inserted
        have own := tx?_updateTx_self
          (f := (·.put { account with balance := account.balance + delta })) (fun _ => rfl) found
        simp only [Shows,draft?,own,Option.bind_some,Tx.account?_put]
        exact if_pos (id_of_version? seen)

theorem hold_yields (before : Acts tx l l') (quiet : Quiet l l') (own : l'.tx? tx = l.tx? tx)
    (view : l'.HasView tx (s.take id)) (idle : s.sought = none) :
    l.Yields tx s (.addToBalance id delta) (l'.hold now tx id delta) := by
  unfold hold
  split
  · exact .waits before quiet own view
  · exact applyDelta_yields before quiet view idle

theorem HasView.held_of_seated (view : l.HasView tx s) (idle : s.sought = none)
    (seated : l.Seated tx id) : id ∈ s.held := by
  rcases view.seated id seated with held | sought
  · exact held
  · rw [idle] at sought
    cases sought

theorem not_seated_of_not_held (view : l.HasView tx s) (idle : s.sought = none)
    (found : l.row? id = some r) (foreign : r.holder ≠ some tx) : ¬l.Seated tx id := by
  intro seated
  obtain ⟨r',here,holder⟩ := view.holds id (view.held_of_seated idle seated)
  cases Option.some.inj (found.symm.trans here)
  exact foreign holder

theorem holds_request (held : l.Holds tx seen) :
    (l.updateRow id (Row.request tx)).Holds tx seen := by
  obtain ⟨r,found,holder⟩ := held
  refine ⟨_,by rw [row?_updateRow (Row.id_request tx),found]; rfl,?_⟩
  by_cases here : seen = id
  · subst here
    rw [onRow_self found]
    simp [Row.request,holder]
  · rw [onRow_ne here found]
    exact holder

theorem seated_of_request (seated : (l.updateRow id (Row.request tx)).Seated tx seen) :
    l.Seated tx seen ∨ seen = id := by
  obtain ⟨r',found',member⟩ := seated
  rw [row?_updateRow (Row.id_request tx)] at found'
  obtain ⟨r,found,rfl⟩ := Option.map_eq_some_iff.mp found'
  by_cases here : seen = id
  · exact .inr here
  · rw [onRow_ne here found] at member
    exact .inl ⟨r,found,member⟩

theorem HasView.request_free (view : l.HasView tx s) (idle : s.sought = none)
    (found : l.row? id = some r) (free : r.holder = none) :
    (l.updateRow id (Row.request tx)).HasView tx (s.take id) := by
  have mine : (l.updateRow id (Row.request tx)).Holds tx id := by
    refine ⟨_,by rw [row?_updateRow (Row.id_request tx),found]; rfl,?_⟩
    rw [onRow_self found]
    simp [Row.request,free]
  refine view.reseat rfl (account?_updateRow (Row.account_request tx) l id) (by simp) (by simp)
    (by simp) ?_ ?_ ?_ ?_ (TxView.apart_of_idle ((TxView.sought_take s id).trans idle))
  · intro seen member
    exact TxView.mem_held_take.mpr (.inl member)
  · intro seen member
    rcases TxView.mem_held_take.mp member with old | rfl
    · exact holds_request (view.holds seen old)
    · exact mine
  · intro seen seated
    refine .inl (TxView.mem_held_take.mpr ?_)
    rcases seated_of_request seated with old | new
    · exact .inl (view.held_of_seated idle old)
    · exact .inr new
  · intro seen sought
    rw [TxView.sought_take,idle] at sought
    cases sought

theorem HasView.request_queued (sound : l.Sound) (view : l.HasView tx s) (idle : s.sought = none)
    (found : l.row? id = some r) (foreign : r.holder ≠ some tx) :
    (l.updateRow id (Row.request tx)).HasView tx { s with sought := some id } := by
  refine view.reseat rfl (account?_updateRow (Row.account_request tx) l id) rfl rfl rfl
    (fun _ member => member) ?_ ?_ ?_ ?_
  · intro seen member
    exact holds_request (view.holds seen member)
  · intro seen seated
    rcases seated_of_request seated with old | new
    · exact .inl (view.held_of_seated idle old)
    · exact .inr (congrArg some new.symm)
  · intro seen sought
    cases Option.some.inj sought
    refine ⟨_,by rw [row?_updateRow (Row.id_request tx),found]; rfl,?_⟩
    rw [onRow_self found,Row.seats_request (sound.orderly id r found)]
    simp
  · intro seen sought member
    cases Option.some.inj sought
    obtain ⟨r',here,holder⟩ := view.holds id member
    cases Option.some.inj (found.symm.trans here)
    exact foreign holder

theorem addToBalance_yields (sound : l.Sound) (view : l.HasView tx s) (idle : s.sought = none) :
    l.Yields tx s (.addToBalance id delta) (l.start now tx (.addToBalance id delta)) := by
  simp only [start,requestRow]
  rcases guarded_cases l .addToBalance _ with ⟨e,_,failed⟩ | ⟨_,worked⟩
  · rw [failed]
    exact yields_disarm sound view idle (by decide) _ e
  · rw [worked]
    cases found : l.row? id with
    | none => exact yields_same sound view idle _ _
    | some r =>
      dsimp only
      by_cases mine : r.holder = some tx
      · rw [if_pos mine]
        have held : id ∈ s.held :=
          view.held_of_seated idle ⟨r,found,Row.mem_seats.mpr (.inl mine)⟩
        have taken : s.take id = s := if_pos held
        refine applyDelta_yields (.refl sound tx) (.refl l) ?_ idle
        rw [taken]
        exact view
      · rw [if_neg mine]
        have absent := not_seated_of_not_held view idle found mine
        have acts := acts_request sound view.live absent
        have quiet : Quiet l (l.updateRow id (Row.request tx)) :=
          ⟨books_updateRow l id (Row.account_request tx),rfl,rfl⟩
        by_cases free : r.holder = none
        · rw [if_pos free]
          exact hold_yields acts quiet rfl (view.request_free idle found free) idle
        · rw [if_neg free]
          exact .waits acts quiet rfl (view.request_queued sound idle found mine)

theorem start_yields (sound : l.Sound) (view : l.HasView tx s) (idle : s.sought = none)
    {call : Call} (inside : call.Inside) : l.Yields tx s call (l.start now tx call) := by
  cases call with
  | insertTransfer => exact insertTransfer_yields sound view idle
  | insertEntry => exact insertEntry_yields sound view idle
  | addToBalance => exact addToBalance_yields sound view idle
  | begin | commit | rollback => cases inside

-- The row that was sought has passed to the transaction.
theorem HasView.notice (view : l.HasView tx { s with sought := some id }) (idle : s.sought = none)
    (holds : l.Holds tx id) : l.HasView tx (s.take id) := by
  refine view.reseat rfl (fun _ => rfl) (by simp) (by simp) (by simp) ?_ ?_ ?_ ?_
    (TxView.apart_of_idle ((TxView.sought_take s id).trans idle))
  · intro seen member
    exact TxView.mem_held_take.mpr (.inl member)
  · intro seen member
    rcases TxView.mem_held_take.mp member with old | rfl
    · exact view.holds seen old
    · exact holds
  · intro seen seated
    refine .inl (TxView.mem_held_take.mpr ?_)
    rcases view.seated seen seated with old | sought
    · exact .inl old
    · exact .inr (Option.some.inj sought).symm
  · intro seen sought
    rw [TxView.sought_take,idle] at sought
    cases sought

-- What a call that is gone on with has waited for: its row, or the end of its rest.
inductive Resumed (l : Ledger) (now : Nat) (tx : TxId) :
    (call : Call) → Wait → Ledger × Progress call.Row → Prop where
  | held {id asked : AccountId} {delta : Int} (holds : l.Holds tx id) :
      Resumed l now tx (.addToBalance id delta) (.row asked) (l.hold now tx id delta)
  | rested {id : AccountId} {delta : Int} {time : Nat} (due : time ≤ now) :
      Resumed l now tx (.addToBalance id delta) (.until time)
        ((l.applyDelta tx id delta).1,.answered (l.applyDelta tx id delta).2)
  | commits {time : Nat} (due : time ≤ now) :
      Resumed l now tx .commit (.until time) ((l.commit tx).1,.answered (l.commit tx).2)

theorem resumed_of_resume {call : Call} {w : Wait} {out : Ledger × Progress call.Row}
    (resumed : l.resume now tx call w = some out) : l.Resumed now tx call w out := by
  cases call with
  | begin | insertTransfer | insertEntry | rollback => simp [resume] at resumed
  | addToBalance id delta =>
    cases w with
    | row asked =>
      simp only [resume] at resumed
      split at resumed
      · rename_i holds
        cases Option.some.inj resumed
        exact .held (holds_iff.mp holds)
      · cases resumed
    | «until» time =>
      simp only [resume] at resumed
      split at resumed
      · rename_i due
        cases Option.some.inj resumed
        exact .rested due
      · cases resumed
  | commit =>
    cases w with
    | row asked => simp [resume] at resumed
    | «until» time =>
      simp only [resume] at resumed
      split at resumed
      · rename_i due
        cases Option.some.inj resumed
        exact .commits due
      · cases resumed

theorem resume_yields (sound : l.Sound) (view : l.HasView tx (s.awaiting (some w) call))
    (idle : s.sought = none) (inside : call.Inside) (resumed : l.resume now tx call w = some out) :
    l.Yields tx s call out := by
  cases resumed_of_resume resumed with
  | held holds =>
    exact hold_yields (.refl sound tx) (.refl l) rfl (view.notice idle holds) idle
  | rested => exact applyDelta_yields (.refl sound tx) (.refl l) view idle
  | commits => cases inside

theorem HasView.leaveQueues (view : l.HasView tx s)
    (unheld : ∀ id, s.sought = some id → ¬l.Holds tx id) :
    (l.leaveQueues tx).HasView tx { s with sought := none } := by
  have looked : ∀ id, (l.leaveQueues tx).row? id = (l.row? id).map (Row.leave tx) :=
    row?_map rfl (Row.id_leave tx)
  have accounts : ∀ id, (l.leaveQueues tx).account? id = l.account? id := by
    intro id
    simp only [account?,looked,Option.map_map]
    rfl
  refine view.reseat rfl accounts rfl rfl rfl (fun _ member => member) ?_ ?_ ?_
    (TxView.apart_of_idle rfl)
  · intro id member
    obtain ⟨r,found,holder⟩ := view.holds id member
    exact ⟨r.leave tx,by rw [looked,found]; rfl,holder⟩
  · rintro id ⟨r',found',member⟩
    rw [looked] at found'
    obtain ⟨r,found,rfl⟩ := Option.map_eq_some_iff.mp found'
    rcases Row.mem_seats.mp member with holder | queued
    · have holds : l.Holds tx id := ⟨r,found,holder⟩
      rcases view.seated id holds.seated with held | sought
      · exact .inl held
      · exact absurd holds (unheld id sought)
    · exact absurd queued (Row.not_mem_queue_leave r tx)
  · intro id sought
    cases sought

theorem HasView.draft?_kept (before : l.HasView tx (s.awaiting w call))
    (after : l'.HasView tx (s.after call row)) (quiet : Quiet l l')
    (other : ∀ delta, call ≠ .addToBalance id delta) : l'.draft? tx id = l.draft? tx id := by
  have accounts : l'.account? id = l.account? id := by
    rw [account?_books,account?_books,quiet.books]
  have added : ∃ us, (s.after call row).deltas = (s.awaiting w call).deltas ++ us ∧
      ∀ u ∈ us, u.account ≠ id := by
    rw [TxView.deltas_awaiting]
    cases call with
    | begin | insertTransfer | insertEntry | commit | rollback =>
      exact ⟨[],by simp [TxView.after],by simp⟩
    | addToBalance asked delta =>
      refine ⟨[⟨asked,delta⟩],rfl,?_⟩
      intro u member same
      cases List.mem_singleton.mp member
      exact other delta (congrArg (fun i => Call.addToBalance i delta) same)
  obtain ⟨us,deltas,foreign⟩ := added
  have touches : (s.after call row).Touches id ↔ (s.awaiting w call).Touches id := by
    simp only [TxView.Touches,deltas,List.mem_append]
    constructor
    · rintro ⟨u,old | new,same⟩
      · exact ⟨u,old,same⟩
      · exact absurd same (foreign u new)
    · rintro ⟨u,old,same⟩
      exact ⟨u,.inl old,same⟩
  by_cases touched : (s.awaiting w call).Touches id
  · rw [after.drafts id (touches.mpr touched),before.drafts id touched,accounts]
    cases found : l.account? id with
    | none => rfl
    | some a =>
      have total := Update.total_untouched foreign
      rw [← id_of_account? found] at total
      simp only [Option.map_some,TxView.draft,deltas,Update.total_append,total,Int.add_zero]
  · rw [before.blank id touched]
    exact after.blank id fun new => touched (touches.mp new)

-- Giving up a call inside the transaction leaves its view as before the call, a row that it has
-- already taken apart.
theorem giveUp_keeps (sound : l.Sound) (view : l.HasView tx (s.awaiting (some w) call))
    (idle : s.sought = none) (inside : call.Inside) (waiting : l.resume now tx call w = none) :
    Acts tx l (l.giveUp tx call) ∧ Quiet l (l.giveUp tx call) ∧
      ∃ s', (l.giveUp tx call).HasView tx s' ∧ s.Keeps s' := by
  have left : l.giveUp tx call = l.leaveQueues tx := by
    cases call <;> first | rfl | cases inside
  rw [left]
  refine ⟨acts_leaveQueues sound tx,quiet_leaveQueues l tx,_,view.leaveQueues ?_,?_⟩
  · intro id sought holds
    cases call with
    | begin | commit | rollback => cases inside
    | insertTransfer | insertEntry =>
      cases w <;> simp [TxView.awaiting,idle] at sought
    | addToBalance asked delta =>
      cases w with
      | row seen =>
        cases Option.some.inj sought
        simp [resume,holds_iff.mpr holds] at waiting
      | «until» time =>
        simp only [TxView.awaiting,TxView.sought_take,idle] at sought
        cases sought
  · cases call with
    | begin | commit | rollback => cases inside
    | insertTransfer | insertEntry =>
      cases w <;> exact ⟨rfl,rfl,rfl,fun _ member => member,rfl⟩
    | addToBalance asked delta =>
      cases w with
      | row seen => exact ⟨rfl,rfl,rfl,fun _ member => member,rfl⟩
      | «until» time =>
        refine ⟨by simp [TxView.awaiting],by simp [TxView.awaiting],by simp [TxView.awaiting],?_,rfl⟩
        intro id member
        exact TxView.mem_held_take.mpr (.inl member)

theorem HasView.release (sound : l.Sound) (view : l.HasView tx { s with sought := some id }) :
    (l.updateRow id (Row.release tx)).HasView tx { s with sought := none } := by
  refine view.reseat rfl (account?_updateRow (Row.account_release tx) l id) rfl rfl rfl
    (fun _ member => member) ?_ ?_ ?_ (TxView.apart_of_idle rfl)
  · intro seen member
    obtain ⟨r,found,holder⟩ := view.holds seen member
    have other : seen ≠ id := by
      rintro rfl
      exact view.apart seen rfl member
    refine ⟨_,by rw [row?_updateRow (Row.id_release tx),found]; rfl,?_⟩
    rwa [onRow_ne other found]
  · rintro seen ⟨r',found',member⟩
    rw [row?_updateRow (Row.id_release tx)] at found'
    obtain ⟨r,found,rfl⟩ := Option.map_eq_some_iff.mp found'
    by_cases here : seen = id
    · subst here
      rw [onRow_self found,Row.seats_release (sound.orderly seen r found)] at member
      simp at member
    · rw [onRow_ne here found] at member
      rcases view.seated seen ⟨r,found,member⟩ with held | sought
      · exact .inl held
      · exact absurd (Option.some.inj sought).symm here
  · intro seen sought
    cases sought

-- Opening a transaction gives it the next number and an empty view; if it fails, nobody has that
-- number yet.
theorem begin_opens (sound : l.Sound) :
    Acts l.nextTx l l.begin.1 ∧ Quiet l l.begin.1 ∧
      (l.begin.2 = .ok () ∧ l.begin.1.HasView l.nextTx {} ∨
        ∃ e, l.begin.2 = .error e ∧ ¬l.begin.1.Live l.nextTx) := by
  unfold begin
  rcases guarded_cases l .begin
    (⟨{ l with begun := l.begun + 1, live := l.live ++ [{ id := l.nextTx }] },.ok ()⟩)
    with ⟨e,_,failed⟩ | ⟨_,worked⟩
  · rw [failed]
    have disarmed := acts_disarm sound .begin l.nextTx
    exact ⟨disarmed,quiet_disarm l (by decide),.inr ⟨e,rfl,not_live_nextTx disarmed.sound⟩⟩
  · rw [worked]
    exact ⟨acts_open sound rfl rfl rfl,⟨rfl,rfl,rfl⟩,.inl ⟨rfl,hasView_open sound rfl rfl⟩⟩

end Ledger
end DoubleEntry
