import DoubleEntry.Proofs.Bank
import DoubleEntry.Proofs.Commits

namespace DoubleEntry

theorem TxView.sought_after (s : TxView) (call : Call) (row : call.Row) :
    (s.after call row).sought = s.sought := by
  cases call <;> first | rfl | exact TxView.sought_take _ _

theorem Call.inside_or (call : Call) :
    call.Inside ∨ call = .begin ∨ call = .commit ∨ call = .rollback := by
  cases call <;> simp [Call.Inside]

namespace Client
variable {l l' : Ledger} {tx : TxId} {s : TxView} {now : Nat} {c c' : Client}

def tx? : Client → Option TxId
  | idle tx | waiting tx _ _ => some tx
  | gone => none

inductive Consistent (l : Ledger) : Client → Prop where
  | idle {tx : TxId} {s : TxView} (view : l.HasView tx s) (idle : s.sought = none) :
      Consistent l (.idle tx)
  | waiting {tx : TxId} {s : TxView} {call : Call} {w : Wait}
      (patient : call.Inside ∨ call = .commit) (idle : s.sought = none)
      (view : l.HasView tx (s.awaiting (some w) call)) : Consistent l (.waiting tx call w)
  | gone : Consistent l .gone

structure Moves (tx : TxId) (l l' : Ledger) (c' : Client) : Prop where
  acts : l.Acts tx l'
  consistent : c'.Consistent l'
  owns : c'.tx? = some tx ∨ c'.tx? = none
  grows : l.Grows l'

theorem moves_gone (closes : l.Closes tx l') (grows : l.Grows l') : Moves tx l l' .gone :=
  ⟨closes.acts,.gone,.inr rfl,grows⟩

theorem moves_idle (acts : l.Acts tx l') (view : l'.HasView tx s) (idle : s.sought = none)
    (quiet : l.Quiet l') : Moves tx l l' (.idle tx) :=
  ⟨acts,.idle view idle,.inl rfl,quiet.grows⟩

theorem moves_yields {call : Call} {out : Ledger × Progress call.Row} (idle : s.sought = none)
    (inside : call.Inside) (yields : l.Yields tx s call out) :
    Moves tx l (settle tx call out).1 (settle tx call out).2 := by
  have stays : afterAnswer tx call = .idle tx := by
    cases call <;> first | rfl | cases inside
  cases yields with
  | @row _ row acts quiet view _ =>
    simp only [settle,stays]
    exact moves_idle acts view ((TxView.sought_after s call row).trans idle) quiet
  | error acts quiet view keeps =>
    simp only [settle,stays]
    exact moves_idle acts view keeps.idle quiet
  | waits acts quiet _ view =>
    exact ⟨acts,.waiting (.inl inside) idle view,.inl rfl,quiet.grows⟩

theorem moves_settles {out : Ledger × Progress Unit} (sound : l.Sound) (view : l.HasView tx s)
    (idle : s.sought = none) (settles : l.Settles tx s out) :
    Moves tx l (settle tx .commit out).1 (settle tx .commit out).2 := by
  cases settles with
  | refused closes quiet => exact moves_gone closes quiet.grows
  | posted closes posts _ => exact moves_gone closes posts.grows
  | unacknowledged closes posts _ => exact moves_gone closes posts.grows
  | waits =>
    refine ⟨.refl sound tx,.waiting (s := s) (.inr rfl) idle ?_,.inl rfl,(Ledger.Quiet.refl l).grows⟩
    rwa [TxView.awaiting_commit]

theorem make_moves (sound : l.Sound) (consistent : c.Consistent l)
    (made : c.make now l call = some (l',c')) :
    ∃ tx, c.tx? = some tx ∧ Moves tx l l' c' := by
  cases consistent with
  | waiting | gone => cases made
  | @idle tx s view idle =>
    simp only [make] at made
    split at made
    · cases made
    · have settled := Option.some.inj made
      refine ⟨tx,rfl,?_⟩
      rcases call.inside_or with inside | rfl | rfl | rfl
      · have yields : l.Yields tx s call (l.start now tx call) :=
          Ledger.start_yields sound view idle inside
        have moves := moves_yields idle inside yields
        rwa [settled] at moves
      · contradiction
      · have settles : l.Settles tx s (l.start now tx .commit) := Ledger.start_settles sound view
        have moves := moves_settles sound view idle settles
        rwa [settled] at moves
      · cases settled
        exact moves_gone (Ledger.closes_rollback sound tx) (Ledger.quiet_rollback l tx).grows

theorem resume_moves (sound : l.Sound) (consistent : c.Consistent l)
    (resumed : c.resume now l = some (l',c')) :
    ∃ tx, c.tx? = some tx ∧ Moves tx l l' c' := by
  cases consistent with
  | idle | gone => cases resumed
  | @waiting tx s call w patient idle view =>
    obtain ⟨out,resumed,settled⟩ := Option.map_eq_some_iff.mp resumed
    refine ⟨tx,rfl,?_⟩
    rcases patient with inside | rfl
    · have moves := moves_yields idle inside (Ledger.resume_yields sound view idle inside resumed)
      rwa [settled] at moves
    · rw [TxView.awaiting_commit] at view
      have moves := moves_settles sound view idle (Ledger.resume_settles sound view resumed)
      rwa [settled] at moves

theorem cancel_moves (sound : l.Sound) (consistent : c.Consistent l)
    (cancelled : c.cancel l = some (l',c')) :
    ∃ tx, c.tx? = some tx ∧ Moves tx l l' c' := by
  cases consistent with
  | idle | gone => cases cancelled
  | @waiting tx s call w patient idle view =>
    refine ⟨tx,rfl,?_⟩
    -- A call that waits for no row seeks none.
    have left (none : (s.awaiting (some w) call).sought = none) :
        Moves tx l (l.leaveQueues tx) (.idle tx) := by
      refine moves_idle (Ledger.acts_leaveQueues sound tx) (view.leaveQueues ?_) rfl
        (Ledger.quiet_leaveQueues l tx)
      intro id sought
      rw [none] at sought
      cases sought
    cases call with
    | begin | rollback => simp [Call.Inside] at patient
    | commit =>
      cases Option.some.inj cancelled
      exact moves_gone (Ledger.closes_discard sound tx) (Ledger.quiet_discard l tx).grows
    | insertTransfer | insertEntry =>
      cases Option.some.inj cancelled
      exact left (by cases w <;> exact idle)
    | addToBalance id delta =>
      cases w with
      | «until» time =>
        cases Option.some.inj cancelled
        exact left ((TxView.sought_take s id).trans idle)
      | row asked =>
        cases Option.some.inj cancelled
        have quiet : l.Quiet (l.updateRow id (Row.release tx)) :=
          ⟨Ledger.books_updateRow l id (Row.account_release tx),rfl,rfl⟩
        exact moves_idle (Ledger.acts_release sound tx id) (view.release sound) rfl quiet

theorem drop_moves (sound : l.Sound) (dropped : c.drop l = some (l',c')) :
    ∃ tx, c.tx? = some tx ∧ Moves tx l l' c' := by
  cases c with
  | gone => cases dropped
  | idle tx | waiting tx _ _ =>
    cases Option.some.inj dropped
    exact ⟨tx,rfl,moves_gone (Ledger.closes_discard sound tx) (Ledger.quiet_discard l tx).grows⟩

end Client
end DoubleEntry
