import DoubleEntry.Proofs.Calls

namespace DoubleEntry.Ledger
variable {l l' : Ledger} {tx : TxId} {call : Call} {now : Nat}

-- A transaction is closed with its writes or without them, and armed failures may be used up by that.
inductive Affects (tx : TxId) (l : Ledger) : Call → Ledger → Prop where
  | keeps {call : Call} : Affects tx l call l
  | strikes {call : Call} (p : FaultPoint) : Affects tx l call (l.disarm p)
  | opens : Affects tx l .begin
      { l with begun := l.begun + 1, live := l.live ++ [{ id := l.nextTx }] }
  | records {source destination : AccountId} {amount : Int} (row : Transfer) :
      Affects tx l (.insertTransfer source destination amount)
        { l.updateTx tx fun t => { t with transfers := t.transfers ++ [row] } with
          transferSeq := l.transferSeq + 1 }
  | enters {account : AccountId} {amount : Int} (row : Entry) :
      Affects tx l (.insertEntry account amount)
        { l.updateTx tx fun t => { t with entries := t.entries ++ [row] } with
          entrySeq := l.entrySeq + 1 }
  | asks {id : AccountId} {delta : Int} :
      Affects tx l (.addToBalance id delta) (l.updateRow id (Row.request tx))
  | drafts {id : AccountId} {delta : Int} (a : Account) :
      Affects tx l (.addToBalance id delta) (l.updateTx tx (·.put a))
  | takes {id : AccountId} {delta : Int} (a : Account) :
      Affects tx l (.addToBalance id delta)
        ((l.updateRow id (Row.request tx)).updateTx tx (·.put a))
  | closes {call : Call} (ending : call = .commit ∨ call = .rollback)
      {faults : List (FaultPoint × StoreError)} (used : faults.Sublist l.faults)
      (rolledBack : Nat) :
      Affects tx l call { l.discard tx with faults := faults, rolledBack := rolledBack }
  | commits {t : Tx} (own : l.tx? tx = some t) {faults : List (FaultPoint × StoreError)}
      (used : faults.Sublist l.faults) :
      Affects tx l .commit { (l.apply t).discard tx with faults := faults }

theorem affects_guarded {p : FaultPoint} {work : Ledger × Except StoreError α}
    (worked : l.Affects tx call work.1) : l.Affects tx call (l.guarded p work).1 := by
  rcases guarded_cases l p work with ⟨_,_,failed⟩ | ⟨_,done⟩
  · rw [failed]
    exact .strikes p
  · rw [done]
    exact worked

theorem applyDelta_cases (l : Ledger) (tx : TxId) (id : AccountId) (delta : Int) :
    (l.applyDelta tx id delta).1 = l ∨
      ∃ a, (l.applyDelta tx id delta).1 = l.updateTx tx (·.put a) := by
  unfold applyDelta
  split
  · exact .inl rfl
  · split
    · exact .inl rfl
    · exact .inr ⟨_,rfl⟩

theorem hold_cases (l : Ledger) (now : Nat) (tx : TxId) (id : AccountId) (delta : Int) :
    (l.hold now tx id delta).1 = l ∨
      ∃ a, (l.hold now tx id delta).1 = l.updateTx tx (·.put a) := by
  unfold hold
  split
  · exact .inl rfl
  · exact applyDelta_cases l tx id delta

theorem affects_updated {id : AccountId} {delta : Int}
    (updated : l' = l ∨ ∃ a, l' = l.updateTx tx (·.put a)) :
    l.Affects tx (.addToBalance id delta) l' := by
  rcases updated with rfl | ⟨a,rfl⟩
  · exact .keeps
  · exact .drafts a

theorem commit_affects (l : Ledger) (tx : TxId) : l.Affects tx .commit (l.commit tx).1 := by
  unfold commit
  split
  · exact .closes (.inl rfl) List.filter_sublist _
  · cases found : l.tx? tx with
    | none =>
      rcases guarded_cases (l.discard tx) .commitAcknowledgement (l.discard tx,.ok ()) with
        ⟨_,_,failed⟩ | ⟨_,worked⟩
      · simp only [failed]
        exact .closes (.inl rfl) List.filter_sublist l.rolledBack
      · simp only [worked]
        exact .closes (.inl rfl) (List.Sublist.refl _) l.rolledBack
    | some t =>
      rcases guarded_cases ((l.apply t).discard tx) .commitAcknowledgement
        ((l.apply t).discard tx,.ok ()) with ⟨_,_,failed⟩ | ⟨_,worked⟩
      · simp only [failed]
        exact .commits found List.filter_sublist
      · simp only [worked]
        exact .commits found (List.Sublist.refl _)

theorem addToBalance_affects (l : Ledger) (now : Nat) (tx : TxId) (id : AccountId) (delta : Int) :
    l.Affects tx (.addToBalance id delta) (l.start now tx (.addToBalance id delta)).1 := by
  simp only [start,requestRow]
  rcases guarded_cases l .addToBalance _ with ⟨_,_,failed⟩ | ⟨_,worked⟩
  · rw [failed]
    exact .strikes _
  · rw [worked]
    cases l.row? id with
    | none => exact .keeps
    | some r =>
      dsimp only
      by_cases mine : r.holder = some tx
      · rw [if_pos mine]
        exact affects_updated (applyDelta_cases l tx id delta)
      · rw [if_neg mine]
        by_cases free : r.holder = none
        · rw [if_pos free]
          change l.Affects tx _ ((l.updateRow id (Row.request tx)).hold now tx id delta).1
          rcases hold_cases (l.updateRow id (Row.request tx)) now tx id delta with
            waits | ⟨a,taken⟩
          · rw [waits]
            exact .asks
          · rw [taken]
            exact .takes a
        · rw [if_neg free]
          exact .asks

theorem start_affects (l : Ledger) (now : Nat) (tx : TxId) (call : Call) :
    l.Affects tx call (l.start now tx call).1 := by
  cases call with
  | begin => exact affects_guarded .opens
  | insertTransfer source destination amount =>
    refine affects_guarded ?_
    split
    · exact .keeps
    · split
      · exact .keeps
      · exact .records _
  | insertEntry account amount =>
    refine affects_guarded ?_
    split
    · exact .keeps
    · exact .enters _
  | addToBalance id delta => exact addToBalance_affects l now tx id delta
  | rollback => exact .closes (.inr rfl) (List.Sublist.refl _) _
  | commit =>
    simp only [start]
    split
    · exact .keeps
    · exact commit_affects l tx

theorem resume_affects {w : Wait} {out : Ledger × Progress call.Row}
    (resumed : l.resume now tx call w = some out) : l.Affects tx call out.1 := by
  cases resumed_of_resume resumed with
  | held => exact affects_updated (hold_cases l now tx _ _)
  | rested => exact affects_updated (applyDelta_cases l tx _ _)
  | commits => exact commit_affects l tx

end DoubleEntry.Ledger
