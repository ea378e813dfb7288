import DoubleEntry.Proofs.Calls

namespace DoubleEntry.Ledger
variable {l l' : Ledger} {tx : TxId} {id : AccountId} {s : TxView} {now : Nat}

structure Closes (tx : TxId) (l l' : Ledger) : Prop where
  acts : Acts tx l l'
  gone : ¬l'.Live tx

structure Posts (s : TxView) (l l' : Ledger) : Prop where
  books : l'.books = l.books.post s
  committed : l'.committed = l.committed + 1
  acknowledgement : l'.fault? .commitAcknowledgement = none

theorem Posts.grows (posts : Posts s l l') : Grows l l' := by
  have entries : l'.entries = l.entries ++ s.entries := congrArg Books.entries posts.books
  have transfers : l'.transfers = l.transfers ++ s.transfers :=
    congrArg Books.transfers posts.books
  exact ⟨entries ▸ List.prefix_append _ _,transfers ▸ List.prefix_append _ _⟩

theorem closes_of_same {l'' : Ledger} (closes : Closes tx l l') (rows : l''.rows = l'.rows)
    (live : l''.live = l'.live) (begun : l''.begun = l'.begun) : Closes tx l l'' := by
  refine ⟨closes.acts.trans (.of_same closes.acts.sound rows live begun tx),?_⟩
  intro alive
  exact closes.gone (by simpa only [Live,tx?_of_live live] using alive)

theorem closes_discard (sound : l.Sound) (tx : TxId) : Closes tx l (l.discard tx) :=
  ⟨acts_discard sound tx,not_live_discard l tx⟩

theorem closes_rollback (sound : l.Sound) (tx : TxId) : Closes tx l (l.rollback tx) :=
  closes_of_same (closes_discard sound tx) rfl rfl rfl

theorem quiet_rollback (l : Ledger) (tx : TxId) : Quiet l (l.rollback tx) :=
  (quiet_discard l tx).trans ⟨rfl,rfl,rfl⟩

-- Applying a transaction writes what it has in view, neither more nor less.
theorem books_apply (sound : l.Sound) (view : l.HasView tx s) (found : l.tx? tx = some t) :
    (l.apply t).books = l.books.post s := by
  obtain ⟨t',found',transfers,entries⟩ := view.inserted
  cases Option.some.inj (found.symm.trans found')
  have accounts :
      (l.rows.map (posted t)).map Row.account = (l.rows.map Row.account).map s.draft := by
    rw [List.map_map,List.map_map]
    apply List.map_congr_left
    intro r member
    have committed := account?_of_row? (sound.row?_id member)
    have draft : l.draft? tx r.id = t.account? r.id := by
      simp only [draft?,found,Option.bind_some]
    simp only [Function.comp_apply,posted]
    by_cases touched : s.Touches r.id
    · rw [← draft,view.drafts r.id touched,committed]
      rfl
    · rw [← draft,view.blank r.id touched]
      exact (TxView.draft_untouched touched).symm
  have rows : (l.apply t).rows = l.rows.map (posted t) := rfl
  simp only [books,Books.post,rows,accounts,← transfers,← entries]
  rfl

theorem HasView.holds_draft (view : l.HasView tx s) (found : l.tx? tx = some t)
    (draft : t.account? id = some a) : l.Holds tx id := by
  have drafted : l.draft? tx id = some a := by
    simpa only [draft?,found,Option.bind_some] using draft
  by_cases touched : s.Touches id
  · exact view.holds id (view.covered id touched)
  · rw [view.blank id touched] at drafted
    cases drafted

-- What the transaction has drafted is what it commits.
theorem HasView.account?_posted (view : l.HasView tx s) (posted : l'.books = l.books.post s)
    (drafted : l.draft? tx id = some a) : l'.account? id = some a := by
  rw [account?_post posted,← drafted]
  by_cases touched : s.Touches id
  · exact (view.drafts id touched).symm
  · rw [view.blank id touched] at drafted
    cases drafted

inductive Settles (l : Ledger) (tx : TxId) (s : TxView) : Ledger × Progress Unit → Prop where
  | refused {l' : Ledger} {e : StoreError} (closes : Closes tx l l') (quiet : Quiet l l') :
      Settles l tx s (l',.answered (.error e))
  | posted {l' : Ledger} (closes : Closes tx l l') (posts : Posts s l l')
      (armed : l.fault? .commitAcknowledgement = none) : Settles l tx s (l',.answered (.ok ()))
  | unacknowledged {l' : Ledger} {e : StoreError} (closes : Closes tx l l') (posts : Posts s l l')
      (armed : l.fault? .commitAcknowledgement = some e) :
      Settles l tx s (l',.answered (.error e))
  | waits {w : Wait} : Settles l tx s (l,.waiting w)

theorem commit_settles (sound : l.Sound) (view : l.HasView tx s) :
    l.Settles tx s ((l.commit tx).1,.answered (l.commit tx).2) := by
  unfold commit
  cases refused : l.fault? .commit with
  | some e =>
    refine .refused ?_ ?_
    · have disarmed := acts_disarm sound .commit tx
      have closed := closes_rollback disarmed.sound tx
      exact ⟨disarmed.trans closed.acts,closed.gone⟩
    · exact (quiet_disarm l (by decide)).trans (quiet_rollback _ tx)
  | none =>
    obtain ⟨t,found,_⟩ := view.inserted
    have applied : Acts tx l (l.apply t) :=
      acts_apply sound fun id a draft => view.holds_draft found draft
    have discarded := closes_discard applied.sound tx
    have closes : Closes tx l ((l.apply t).discard tx) :=
      ⟨applied.trans discarded.acts,discarded.gone⟩
    have books : ((l.apply t).discard tx).books = l.books.post s :=
      (books_discard _ tx).trans (books_apply sound view found)
    simp only [found]
    rcases guarded_cases ((l.apply t).discard tx) .commitAcknowledgement
      (((l.apply t).discard tx),.ok ()) with ⟨e,armed,failed⟩ | ⟨armed,worked⟩
    · rw [failed]
      exact .unacknowledged (closes_of_same closes rfl rfl rfl)
        ⟨books,rfl,fault?_disarm _ _⟩ armed
    · rw [worked]
      exact .posted closes ⟨books,rfl,armed⟩ armed

theorem start_settles (sound : l.Sound) (view : l.HasView tx s) :
    l.Settles tx s (l.start now tx .commit) := by
  simp only [start]
  split
  · exact .waits
  · exact commit_settles sound view

theorem resume_settles (sound : l.Sound) (view : l.HasView tx s)
    (resumed : l.resume now tx .commit w = some out) : l.Settles tx s out := by
  cases resumed_of_resume resumed with
  | commits => exact commit_settles sound view

theorem not_seated_of_closed (sound : l.Sound) (gone : ¬l.Live tx) (id : AccountId) :
    ¬l.Seated tx id := fun seated => gone (sound.seated id tx seated)

end DoubleEntry.Ledger
