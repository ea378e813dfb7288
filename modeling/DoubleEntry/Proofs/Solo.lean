import DoubleEntry.Proofs.Alike
import DoubleEntry.Proofs.Grants

namespace DoubleEntry

theorem Books.account?_post (k : Books) (s : TxView) (id : AccountId) :
    (k.post s).account? id = (k.account? id).map s.draft := by
  simp only [account?,post,List.find?_map]
  rfl

theorem Books.post_empty (k : Books) : k.post {} = k := by
  have untouched : TxView.draft {} = id := by
    funext a
    exact congrArg (fun balance => { a with balance := balance }) (Int.add_zero a.balance)
  simp only [post,untouched,List.map_id,List.append_nil]

theorem Books.bare_insertTransfer (k : Books) (s : TxView) (source destination : AccountId)
    (amount : Int) (row : Transfer) :
    (k.post (s.after (.insertTransfer source destination amount) row)).bare =
      { (k.post s).bare with transfers := (k.post s).bare.transfers ++ [row.bare] } := by
  simp only [post,bare,TxView.after,← List.append_assoc,List.map_append]
  rfl

theorem Books.bare_insertEntry (k : Books) (s : TxView) (account : AccountId) (amount : Int)
    (row : Entry) :
    (k.post (s.after (.insertEntry account amount) row)).bare =
      { (k.post s).bare with entries := (k.post s).bare.entries ++ [row.bare] } := by
  simp only [post,bare,TxView.after,← List.append_assoc,List.map_append]
  rfl

theorem Books.post_addToBalance (k : Books) (s : TxView) (id : AccountId) (delta : Int)
    (row : Account) :
    k.post (s.after (.addToBalance id delta) row) = (k.post s).add id delta := by
  have drafted : (s.after (.addToBalance id delta) row).draft = (s.change ⟨id,delta⟩).draft := rfl
  simp only [post,add,drafted,List.map_map]
  simp only [TxView.after,TxView.entries_take,TxView.transfers_take,Books.mk.injEq,and_true]
  apply List.map_congr_left
  intro a _
  by_cases here : a.id = id
  · rw [s.draft_change (u := ⟨id,delta⟩) here.symm]
    exact (if_pos here).symm
  · rw [s.draft_change_ne (u := ⟨id,delta⟩) (Ne.symm here)]
    exact (if_neg here).symm

namespace Ledger
variable {l l' : Ledger} {tx : TxId} {s : TxView} {now : Nat}

def Calm (l : Ledger) : Prop := l.faults = [] ∧ l.lockHold = none ∧ l.commitDelay = none

structure Idle (l : Ledger) : Prop where
  sound : l.Sound
  closed : l.live = []
  calm : l.Calm

theorem Idle.createAccount (idle : l.Idle) (owner : String) (currency : Currency) (balance : Int)
    (time : Instant) : (l.createAccount owner currency balance time).1.Idle :=
  ⟨(acts_createAccount idle.sound owner currency balance time 0).sound,idle.closed,idle.calm⟩

structure Alone (l : Ledger) (tx : TxId) : Prop where
  sound : l.Sound
  only : ∀ other, l.Live other → other = tx
  calm : l.Calm

theorem Alone.acts (alone : l.Alone tx) (acts : Acts tx l l') (calm : l'.Calm) : l'.Alone tx := by
  refine ⟨acts.sound,?_,calm⟩
  intro other live
  by_cases same : other = tx
  · exact same
  · exact alone.only other (acts.live other same live)

theorem Alone.idle (alone : l.Alone tx) (gone : ¬l.Live tx) : l.Idle := by
  refine ⟨alone.sound,?_,alone.calm⟩
  cases live : l.live with
  | nil => rfl
  | cons t rest =>
    have here : l.Live t.id := ⟨t,by simp [tx?,live]⟩
    exact absurd (alone.only t.id here ▸ here) gone

-- What has been added to the view is what the rules make of the call; of a failure nothing is left.
inductive Obeys (l : Ledger) (tx : TxId) (s : TxView) (call : Call) :
    Ledger × Progress call.Row → Prop where
  | row {l' : Ledger} {r : call.Row}
      (served : (l.books.post s).bare.serve call =
        .ok (call.bare r,(l'.books.post (s.after call r)).bare))
      (alone : l'.Alone tx) (quiet : Quiet l l') (view : l'.HasView tx (s.after call r))
      (shows : l'.Shows tx call r) : Obeys l tx s call (l',.answered (.ok r))
  | error {l' : Ledger} {s' : TxView} {e : StoreError}
      (refused : (l.books.post s).bare.serve call = .error e.bare) (alone : l'.Alone tx)
      (quiet : Quiet l l') (view : l'.HasView tx s') (idle : s'.sought = none) :
      Obeys l tx s call (l',.answered (.error e))

theorem obeys_of_yields {call : Call} {out : Ledger × Progress call.Row} (alone : l.Alone tx)
    (yields : l.Yields tx s call out) (calm : out.1.Calm)
    (answers : match out.2 with
      | .answered (.ok r) => (l.books.post s).bare.serve call =
          .ok (call.bare r,(l.books.post (s.after call r)).bare)
      | .answered (.error e) => (l.books.post s).bare.serve call = .error e.bare
      | .waiting _ => False) : l.Obeys tx s call out := by
  cases yields with
  | row acts quiet view shows =>
    exact .row (by rw [quiet.books]; exact answers) (alone.acts acts calm)
      quiet view shows
  | error acts quiet view keeps =>
    exact .error answers (alone.acts acts calm) quiet view keeps.idle
  | waits => cases answers

theorem account?_post_eq_none (l : Ledger) (s : TxView) (id : AccountId) :
    (l.books.post s).bare.account? id = none ↔ l.account? id = none := by
  rw [Books.account?_bare_eq_none,Books.account?_post,Option.map_eq_none_iff,account?_books]
  rfl

theorem insertTransfer_obeys (alone : l.Alone tx) (view : l.HasView tx s) (idle : s.sought = none)
    (source destination : AccountId) (amount : Int) :
    l.Obeys tx s (.insertTransfer source destination amount)
      (l.start now tx (.insertTransfer source destination amount)) := by
  have yields : l.Yields tx s _ (l.start now tx (.insertTransfer source destination amount)) :=
    insertTransfer_yields alone.sound view idle
  simp only [start,insertTransfer,guarded_unarmed alone.calm.1] at yields ⊢
  by_cases checked : amount ≤ 0 ∨ source = destination
  · rw [if_pos checked] at yields ⊢
    exact obeys_of_yields alone yields alone.calm (if_pos checked)
  · rw [if_neg checked] at yields ⊢
    cases missing : [source,destination].find? fun id => (l.account? id).isNone with
    | some id =>
      rw [missing] at yields
      refine obeys_of_yields alone yields alone.calm ?_
      have member := List.mem_of_find?_eq_some missing
      have absent : l.account? id = none := by simpa using List.find?_some missing
      have unknown : l.account? source = none ∨ l.account? destination = none := by
        simp only [List.mem_cons,List.not_mem_nil,or_false] at member
        rcases member with rfl | rfl
        · exact .inl absent
        · exact .inr absent
      rw [← account?_post_eq_none l s,← account?_post_eq_none l s] at unknown
      exact (if_neg checked).trans (if_pos unknown)
    | none =>
      rw [missing] at yields
      refine obeys_of_yields alone yields alone.calm ?_
      have known : ¬(l.account? source = none ∨ l.account? destination = none) := by
        simpa [not_or,Option.isNone_iff_eq_none] using missing
      rw [← account?_post_eq_none l s,← account?_post_eq_none l s] at known
      exact ((if_neg checked).trans (if_neg known)).trans
        (by rw [Books.bare_insertTransfer]; rfl)

theorem insertEntry_obeys (alone : l.Alone tx) (view : l.HasView tx s) (idle : s.sought = none)
    (account : AccountId) (amount : Int) :
    l.Obeys tx s (.insertEntry account amount) (l.start now tx (.insertEntry account amount)) := by
  have yields : l.Yields tx s _ (l.start now tx (.insertEntry account amount)) :=
    insertEntry_yields alone.sound view idle
  simp only [start,insertEntry,guarded_unarmed alone.calm.1] at yields ⊢
  have unknown := account?_post_eq_none l s account
  by_cases missing : (l.account? account).isNone = true
  · rw [if_pos missing] at yields ⊢
    exact obeys_of_yields alone yields alone.calm
      (if_pos (unknown.mpr (Option.isNone_iff_eq_none.mp missing)))
  · rw [if_neg missing] at yields ⊢
    refine obeys_of_yields alone yields alone.calm ?_
    have known : ¬(l.books.post s).bare.account? account = none := fun none =>
      missing (Option.isNone_iff_eq_none.mpr (unknown.mp none))
    exact (if_neg known).trans (by rw [Books.bare_insertEntry]; rfl)

theorem applyDelta_obeys {l₀ : Ledger} {id : AccountId} {delta : Int} (before : l₀.Alone tx)
    (alone : l.Alone tx)
    (seen : l.version? tx id = (l₀.books.post s).account? id)
    (yields : l₀.Yields tx s (.addToBalance id delta)
      ((l.applyDelta tx id delta).1,.answered (l.applyDelta tx id delta).2)) :
    l₀.Obeys tx s (.addToBalance id delta)
      ((l.applyDelta tx id delta).1,.answered (l.applyDelta tx id delta).2) := by
  have shown := Books.account?_bare (l₀.books.post s) id
  rw [← seen] at shown
  unfold applyDelta at yields ⊢
  cases version : l.version? tx id with
  | none =>
    rw [version] at yields shown
    refine obeys_of_yields before yields alone.calm ?_
    simp only [Books.serve,shown,Option.map_none]
    rfl
  | some a =>
    rw [version] at yields shown
    dsimp only at yields ⊢
    cases sum : Bigint.add? a.balance delta with
    | none =>
      rw [sum] at yields
      refine obeys_of_yields before yields alone.calm ?_
      have overflow : ¬Bigint.Fits (a.bare.balance + delta) := Bigint.add?_eq_none.mp sum
      simp only [Books.serve,shown,Option.map_some,if_neg overflow]
      rfl
    | some balance =>
      rw [sum] at yields
      obtain ⟨room,rfl⟩ := Bigint.add?_eq_some.mp sum
      refine obeys_of_yields before yields alone.calm ?_
      have room' : Bigint.Fits (a.bare.balance + delta) := room
      simp only [Books.serve,shown,Option.map_some,if_pos room',Books.post_addToBalance,
        Books.bare_add]
      rfl

theorem hold_calm {id : AccountId} {delta : Int} (calm : l.Calm) :
    l.hold now tx id delta =
      ((l.applyDelta tx id delta).1,.answered (l.applyDelta tx id delta).2) := by
  simp only [hold,calm.2.1]

theorem addToBalance_obeys (alone : l.Alone tx) (view : l.HasView tx s) (idle : s.sought = none)
    (id : AccountId) (delta : Int) :
    l.Obeys tx s (.addToBalance id delta) (l.start now tx (.addToBalance id delta)) := by
  have yields : l.Yields tx s _ (l.start now tx (.addToBalance id delta)) :=
    addToBalance_yields alone.sound view idle
  have seen : l.version? tx id = (l.books.post s).account? id := by
    rw [view.version?,Books.account?_post,account?_books]
    rfl
  simp only [start,requestRow,guarded_unarmed alone.calm.1] at yields ⊢
  cases found : l.row? id with
  | none =>
    rw [found] at yields
    refine obeys_of_yields alone yields alone.calm ?_
    have absent : l.account? id = none := by simp only [account?,found,Option.map_none]
    have unknown := (account?_post_eq_none l s id).mpr absent
    simp only [Books.serve,unknown]
    rfl
  | some r =>
    rw [found] at yields
    dsimp only at yields ⊢
    by_cases mine : r.holder = some tx
    · rw [if_pos mine] at yields ⊢
      exact applyDelta_obeys alone alone seen yields
    · have free : r.holder = none := by
        cases holder : r.holder with
        | none => rfl
        | some other =>
          have live := alone.sound.seated id other ⟨r,found,Row.mem_seats.mpr (.inl holder)⟩
          exact absurd (holder.trans (congrArg some (alone.only other live))) mine
      rw [if_neg mine,if_pos free] at yields ⊢
      dsimp only at yields ⊢
      have calm : (l.updateRow id (Row.request tx)).Calm := alone.calm
      have acts := acts_request alone.sound view.live (not_seated_of_not_held view idle found mine)
      have version : (l.updateRow id (Row.request tx)).version? tx id = l.version? tx id := by
        rw [version?,version?,account?_updateRow (Row.account_request tx)]
        rfl
      rw [hold_calm calm] at yields ⊢
      exact applyDelta_obeys alone (alone.acts acts calm)
        (version.trans seen) yields

theorem start_obeys {call : Call} (inside : call.Inside) (alone : l.Alone tx)
    (view : l.HasView tx s) (idle : s.sought = none) (now : Nat) :
    l.Obeys tx s call (l.start now tx call) := by
  cases call with
  | insertTransfer => exact insertTransfer_obeys alone view idle _ _ _
  | insertEntry => exact insertEntry_obeys alone view idle _ _
  | addToBalance => exact addToBalance_obeys alone view idle _ _
  | begin | commit | rollback => cases inside

theorem Idle.begins (idle : l.Idle) (now : Nat) :
    ∃ l', l.start now l.nextTx .begin = (l',.answered (.ok ())) ∧ l'.Alone l.nextTx ∧
      l'.books = l.books ∧ l'.HasView l.nextTx {} := by
  obtain ⟨acts,quiet,opened⟩ := begin_opens idle.sound
  have began : l.begin =
      ({ l with begun := l.begun + 1, live := l.live ++ [{ id := l.nextTx }] },.ok ()) :=
    guarded_unarmed idle.calm.1 _ _
  rcases opened with ⟨_,view⟩ | ⟨e,failed,_⟩
  · refine ⟨l.begin.1,by rw [start,began],?_,quiet.books,view⟩
    refine ⟨acts.sound,?_,by rw [began]; exact idle.calm⟩
    · intro other live
      by_cases same : other = l.nextTx
      · exact same
      · obtain ⟨t,found⟩ := acts.live other same live
        rw [tx?,idle.closed] at found
        cases found
  · rw [began] at failed
    cases failed

theorem Alone.commits (alone : l.Alone tx) (view : l.HasView tx s) (now : Nat) :
    ∃ l', l.start now tx .commit = (l',.answered (.ok ())) ∧ l'.Idle ∧
      l'.books = l.books.post s := by
  obtain ⟨t,found,_⟩ := view.inserted
  have passed : l.fault? .commit = none := by simp [fault?,alone.calm.1]
  have committed : l.commit tx = ((l.apply t).discard tx,.ok ()) := by
    simp only [commit,passed,found]
    exact guarded_unarmed (l := (l.apply t).discard tx) alone.calm.1 _ _
  have started : l.start now tx .commit = ((l.apply t).discard tx,.answered (.ok ())) := by
    simp only [start,alone.calm.2.2,committed]
  have settles : l.Settles tx s (l.start now tx .commit) := start_settles alone.sound view
  generalize out : l.start now tx .commit = o at settles
  rw [started] at out
  cases settles with
  | refused | unacknowledged | waits => cases (Prod.mk.inj out).2
  | posted closes posts =>
    obtain ⟨rfl,_⟩ := Prod.mk.inj out
    have left := alone.acts closes.acts alone.calm
    exact ⟨_,rfl,left.idle closes.gone,posts.books⟩

theorem Alone.rollsBack (alone : l.Alone tx) (now : Nat) :
    ∃ l', l.start now tx .rollback = (l',.answered (.ok ())) ∧ l'.Idle ∧ l'.books = l.books := by
  have closes := closes_rollback alone.sound tx
  have left := alone.acts closes.acts alone.calm
  exact ⟨l.rollback tx,rfl,left.idle closes.gone,(quiet_rollback l tx).books⟩

end Ledger
end DoubleEntry
