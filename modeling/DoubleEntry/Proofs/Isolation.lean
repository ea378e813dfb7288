import DoubleEntry.Proofs.Views

namespace DoubleEntry.Ledger
variable {l l' l'' : Ledger} {tx other : TxId} {id : AccountId}

-- Rows are numbered by their position; only open transactions sit at them.
structure Sound (l : Ledger) : Prop where
  numbered : ∀ (n : Nat) r, l.rows[n]? = some r → r.id = (n : Int) + 1
  orderly : ∀ id r, l.row? id = some r → r.Orderly
  seated : ∀ id tx, l.Seated tx id → l.Live tx
  fresh : ∀ tx, l.Live tx → tx < l.begun

structure PreservesTx (tx : TxId) (l l' : Ledger) : Prop where
  own : l'.tx? tx = l.tx? tx
  rows : ∀ id r, l.row? id = some r → ∃ r', l'.row? id = some r' ∧ r.PreservesTx tx r'
  fresh : ∀ id, l.row? id = none → ¬l'.Seated tx id

theorem PreservesTx.trans (one : PreservesTx tx l l') (two : PreservesTx tx l' l'') :
    PreservesTx tx l l'' := by
  refine ⟨two.own.trans one.own,?_,?_⟩
  · intro id r found
    obtain ⟨r',found',preserved⟩ := one.rows id r found
    obtain ⟨r'',found'',preserved'⟩ := two.rows id r' found'
    exact ⟨r'',found'',preserved.trans preserved'⟩
  · intro id absent
    cases between : l'.row? id with
    | none => exact two.fresh id between
    | some r' =>
      obtain ⟨r'',found,preserved⟩ := two.rows id r' between
      rintro ⟨seat,here,member⟩
      cases Option.some.inj (found.symm.trans here)
      exact one.fresh id absent ⟨r',between,preserved.seats.mp member⟩

theorem PreservesTx.holds (preserved : PreservesTx tx l l') (held : l.Holds tx id) :
    l'.Holds tx id := by
  obtain ⟨r,found,holder⟩ := held
  obtain ⟨r',found',kept⟩ := preserved.rows id r found
  exact ⟨r',found',(kept.held holder).1⟩

-- A held row is frozen: nobody else commits to it.
theorem PreservesTx.account? (preserved : PreservesTx tx l l') (held : l.Holds tx id) :
    l'.account? id = l.account? id := by
  obtain ⟨r,found,holder⟩ := held
  obtain ⟨r',found',kept⟩ := preserved.rows id r found
  rw [account?_of_row? found,account?_of_row? found',(kept.held holder).2]

theorem PreservesTx.seated (preserved : PreservesTx tx l l') : l'.Seated tx id ↔ l.Seated tx id := by
  cases found : l.row? id with
  | none =>
    refine ⟨fun seated => absurd seated (preserved.fresh id found),?_⟩
    rintro ⟨r,here,_⟩
    rw [found] at here
    cases here
  | some r =>
    obtain ⟨r',found',kept⟩ := preserved.rows id r found
    constructor
    · rintro ⟨seat,here,member⟩
      cases Option.some.inj (found'.symm.trans here)
      exact ⟨r,found,kept.seats.mp member⟩
    · rintro ⟨seat,here,member⟩
      cases Option.some.inj (found.symm.trans here)
      exact ⟨r',found',kept.seats.mpr member⟩

theorem preservesTx_of_map {f : Row → Row} (rows : l'.rows = l.rows.map f)
    (same : ∀ r, (f r).id = r.id) (own : l'.tx? tx = l.tx? tx)
    (each : ∀ id r, l.row? id = some r → r.PreservesTx tx (f r)) : PreservesTx tx l l' := by
  refine ⟨own,?_,?_⟩
  · intro id r found
    exact ⟨f r,by rw [row?_map rows same,found]; rfl,each id r found⟩
  · rintro id absent ⟨r,found,_⟩
    rw [row?_map rows same,absent] at found
    cases found

theorem preservesTx_of_rows (rows : l'.rows = l.rows) (own : l'.tx? tx = l.tx? tx) :
    PreservesTx tx l l' :=
  preservesTx_of_map (by rw [rows,List.map_id']) (fun _ => rfl) own fun _ r _ =>
    Row.PreservesTx.refl tx r

theorem Sound.of_map {f : Row → Row} (sound : l.Sound) (rows : l'.rows = l.rows.map f)
    (same : ∀ r, (f r).id = r.id) (orderly : ∀ id r, l.row? id = some r → (f r).Orderly)
    (seated : ∀ id r, l.row? id = some r → ∀ tx ∈ (f r).seats, l'.Live tx)
    (fresh : ∀ tx, l'.Live tx → tx < l'.begun) : l'.Sound := by
  refine ⟨?_,?_,?_,fresh⟩
  · intro n r' found
    rw [rows,List.getElem?_map] at found
    obtain ⟨r,here,rfl⟩ := Option.map_eq_some_iff.mp found
    rw [same]
    exact sound.numbered n r here
  · intro id r' found
    rw [row?_map rows same] at found
    obtain ⟨r,here,rfl⟩ := Option.map_eq_some_iff.mp found
    exact orderly id r here
  · rintro id tx ⟨r',found,member⟩
    rw [row?_map rows same] at found
    obtain ⟨r,here,rfl⟩ := Option.map_eq_some_iff.mp found
    exact seated id r here tx member

theorem Sound.holder_unique (held : l.Holds tx id) (held' : l.Holds other id) : tx = other := by
  obtain ⟨r,found,holder⟩ := held
  obtain ⟨r',found',holder'⟩ := held'
  cases Option.some.inj (found.symm.trans found')
  exact Option.some.inj (holder.symm.trans holder')

theorem Sound.row?_id (sound : l.Sound) (member : r ∈ l.rows) : l.row? r.id = some r := by
  obtain ⟨n,found⟩ := List.mem_iff_getElem?.mp member
  unfold row?
  rw [List.find?_eq_some_iff_getElem]
  refine ⟨by simp,n,?_⟩
  obtain ⟨bound,here⟩ := List.getElem?_eq_some_iff.mp found
  refine ⟨bound,here,?_⟩
  intro m earlier
  have mine := sound.numbered n r found
  have theirs := sound.numbered m _ (List.getElem?_eq_getElem (Nat.lt_trans earlier bound))
  rw [mine,theirs]
  have apart : (m : Int) + 1 ≠ (n : Int) + 1 := by omega
  simpa using apart

theorem not_live_nextTx (sound : l.Sound) : ¬l.Live l.nextTx :=
  fun live => Nat.lt_irrefl _ (sound.fresh _ live)

-- A step from `l` to `l'` on behalf of `tx`.
structure Acts (tx : TxId) (l l' : Ledger) : Prop where
  sound : l'.Sound
  preserves : ∀ other, other ≠ tx → l.Live other → PreservesTx other l l'
  live : ∀ other, other ≠ tx → l'.Live other → l.Live other
  begun : l.begun ≤ l'.begun

theorem Acts.refl (sound : l.Sound) (tx : TxId) : Acts tx l l :=
  ⟨sound,fun _ _ _ => preservesTx_of_rows rfl rfl,fun _ _ live => live,Nat.le_refl _⟩

theorem Acts.trans (one : Acts tx l l') (two : Acts tx l' l'') : Acts tx l l'' := by
  refine ⟨two.sound,?_,?_,Nat.le_trans one.begun two.begun⟩
  · intro other different live
    have preserved := one.preserves other different live
    have still : l'.Live other := by simpa only [Live,preserved.own] using live
    exact preserved.trans (two.preserves other different still)
  · intro other different live
    exact one.live other different (two.live other different live)

theorem Acts.of_same (sound : l.Sound) (rows : l'.rows = l.rows) (live : l'.live = l.live)
    (begun : l'.begun = l.begun) (tx : TxId) : Acts tx l l' := by
  have still : ∀ seen, l'.Live seen ↔ l.Live seen := by
    intro seen
    simp only [Live,tx?_of_live live]
  refine ⟨?_,?_,fun other _ => (still other).mp,Nat.le_of_eq begun.symm⟩
  · refine sound.of_map (f := fun r => r) (by rw [rows,List.map_id']) (fun _ => rfl) sound.orderly
      ?_ ?_
    · intro id r found seen member
      exact (still seen).mpr (sound.seated id seen ⟨r,found,member⟩)
    · intro seen alive
      rw [begun]
      exact sound.fresh seen ((still seen).mp alive)
  · intro other _ _
    exact preservesTx_of_rows rows (tx?_of_live live other)

theorem acts_disarm (sound : l.Sound) (p : FaultPoint) (tx : TxId) : Acts tx l (l.disarm p) := by
  apply Acts.of_same sound <;> rfl

theorem acts_updateTx {f : Tx → Tx} (sound : l.Sound) (same : ∀ t, (f t).id = t.id) :
    Acts tx l (l.updateTx tx f) := by
  have still : ∀ seen, (l.updateTx tx f).Live seen ↔ l.Live seen := fun _ => live_updateTx same
  refine ⟨?_,?_,fun other _ => (still other).mp,Nat.le_refl _⟩
  · refine sound.of_map (f := fun r => r) (by rw [List.map_id']; rfl) (fun _ => rfl) sound.orderly
      ?_ ?_
    · intro id r found seen member
      exact (still seen).mpr (sound.seated id seen ⟨r,found,member⟩)
    · intro seen alive
      exact sound.fresh seen ((still seen).mp alive)
  · intro other different _
    exact preservesTx_of_rows rfl (tx?_updateTx_ne same different)

theorem acts_insert {f : Tx → Tx} (sound : l.Sound) (same : ∀ t, (f t).id = t.id)
    (rows : l'.rows = l.rows) (live : l'.live = (l.updateTx tx f).live)
    (begun : l'.begun = l.begun) : Acts tx l l' :=
  have updated := acts_updateTx sound same
  updated.trans (.of_same updated.sound rows live begun tx)

theorem acts_rows {f : Row → Row} (sound : l.Sound) (rows : l'.rows = l.rows.map f)
    (live : l'.live = l.live) (begun : l'.begun = l.begun) (same : ∀ r, (f r).id = r.id)
    (orderly : ∀ id r, l.row? id = some r → (f r).Orderly)
    (seated : ∀ id r, l.row? id = some r → ∀ seen ∈ (f r).seats, l.Live seen)
    (preserves : ∀ other, other ≠ tx → ∀ id r, l.row? id = some r → r.PreservesTx other (f r)) :
    Acts tx l l' := by
  have still : ∀ seen, l'.Live seen ↔ l.Live seen := by
    intro seen
    simp only [Live,tx?_of_live live]
  refine ⟨?_,?_,fun other _ => (still other).mp,Nat.le_of_eq begun.symm⟩
  · refine sound.of_map rows same orderly ?_ ?_
    · intro id r found seen member
      exact (still seen).mpr (seated id r found seen member)
    · intro seen alive
      rw [begun]
      exact sound.fresh seen ((still seen).mp alive)
  · intro other different _
    exact preservesTx_of_map rows same (tx?_of_live live other) (preserves other different)

theorem acts_request (sound : l.Sound) (live : l.Live tx) (absent : ¬l.Seated tx id) :
    Acts tx l (l.updateRow id (Row.request tx)) := by
  have here : ∀ seen r, l.row? seen = some r → r.id = id → l.row? id = some r := by
    intro seen r found same
    rwa [← same,id_of_row? found]
  apply acts_rows sound (rows_updateRow l id _) rfl rfl (id_onRow (Row.id_request tx) id)
  · intro seen r found
    unfold onRow
    split
    · rename_i same
      exact (sound.orderly seen r found).request fun member =>
        absent ⟨r,here seen r found same,member⟩
    · exact sound.orderly seen r found
  · intro seen r found user member
    unfold onRow at member
    split at member
    · rw [Row.seats_request (sound.orderly seen r found),List.mem_append] at member
      rcases member with before | asking
      · exact sound.seated seen user ⟨r,found,before⟩
      · cases List.mem_singleton.mp asking
        exact live
    · exact sound.seated seen user ⟨r,found,member⟩
  · intro other different seen r found
    unfold onRow
    split
    · exact Row.preservesTx_request (sound.orderly seen r found) different
    · exact Row.PreservesTx.refl other r

theorem acts_leaveQueues (sound : l.Sound) (tx : TxId) : Acts tx l (l.leaveQueues tx) := by
  have rows : (l.leaveQueues tx).rows = l.rows.map (Row.leave tx) := rfl
  apply acts_rows sound rows rfl rfl (Row.id_leave tx)
  · intro id r found
    exact (sound.orderly id r found).leave tx
  · intro id r found user member
    have before : user ∈ r.seats := by
      rcases Row.mem_seats.mp member with holder | queued
      · exact Row.mem_seats.mpr (.inl holder)
      · exact Row.mem_seats.mpr (.inr (List.mem_filter.mp queued).1)
    exact sound.seated id user ⟨r,found,before⟩
  · intro other different id r found
    exact Row.preservesTx_leave r different

theorem acts_release (sound : l.Sound) (tx : TxId) (id : AccountId) :
    Acts tx l (l.updateRow id (Row.release tx)) := by
  apply acts_rows sound (rows_updateRow l id _) rfl rfl (id_onRow (Row.id_release tx) id)
  · intro seen r found
    unfold onRow
    split
    · exact (sound.orderly seen r found).release tx
    · exact sound.orderly seen r found
  · intro seen r found user member
    refine sound.seated seen user ⟨r,found,?_⟩
    unfold onRow at member
    split at member
    · rw [Row.seats_release (sound.orderly seen r found)] at member
      exact (List.mem_filter.mp member).1
    · exact member
  · intro other different seen r found
    unfold onRow
    split
    · exact Row.preservesTx_release (sound.orderly seen r found) different
    · exact Row.PreservesTx.refl other r

theorem not_live_discard (l : Ledger) (tx : TxId) : ¬(l.discard tx).Live tx := by
  rintro ⟨t,found⟩
  rw [tx?_discard_self] at found
  cases found

theorem acts_discard (sound : l.Sound) (tx : TxId) : Acts tx l (l.discard tx) := by
  have still : ∀ other, other ≠ tx → ((l.discard tx).Live other ↔ l.Live other) := by
    intro other different
    simp only [Live,tx?_discard_ne l different]
  have rows : (l.discard tx).rows = l.rows.map (Row.release tx) := rfl
  refine ⟨?_,?_,fun other different => (still other different).mp,Nat.le_refl _⟩
  · refine sound.of_map rows (Row.id_release tx) ?_ ?_ ?_
    · intro id r found
      exact (sound.orderly id r found).release tx
    · intro id r found user member
      rw [Row.seats_release (sound.orderly id r found),List.mem_filter] at member
      have different : user ≠ tx := by simpa using member.2
      exact (still user different).mpr (sound.seated id user ⟨r,found,member.1⟩)
    · intro user alive
      have different : user ≠ tx := fun same => not_live_discard l tx (same ▸ alive)
      exact sound.fresh user ((still user different).mp alive)
  · intro other different _
    exact preservesTx_of_map rows (Row.id_release tx) (tx?_discard_ne l different)
      fun id r found => Row.preservesTx_release (sound.orderly id r found) different

theorem acts_apply (sound : l.Sound) {t : Tx}
    (held : ∀ id a, t.account? id = some a → l.Holds tx id) : Acts tx l (l.apply t) := by
  apply acts_rows sound (rows_apply l t) rfl rfl (id_posted t)
  · intro id r found
    exact ⟨(sound.orderly id r found).distinct,(sound.orderly id r found).vacant⟩
  · intro id r found user member
    exact sound.seated id user ⟨r,found,member⟩
  · intro other different id r found
    refine ⟨id_posted t r,?_,Iff.rfl⟩
    intro holder
    refine ⟨holder,?_⟩
    cases draft : t.account? r.id with
    | none => simp [posted,draft]
    | some a =>
      have mine := held r.id a draft
      rw [id_of_row? found] at mine
      exact absurd (Sound.holder_unique ⟨r,found,holder⟩ mine) different

theorem acts_open (sound : l.Sound) (live : l'.live = l.live ++ [({ id := l.nextTx } : Tx)])
    (rows : l'.rows = l.rows) (begun : l'.begun = l.begun + 1) : Acts l.nextTx l l' := by
  have looked : ∀ seen, seen ≠ l.nextTx → l'.tx? seen = l.tx? seen := by
    intro seen different
    rw [tx?_append live,if_neg (Ne.symm different),Option.or_none]
  have still : ∀ seen, seen ≠ l.nextTx → (l'.Live seen ↔ l.Live seen) := by
    intro seen different
    simp only [Live,looked seen different]
  refine ⟨?_,?_,fun other different => (still other different).mp,?_⟩
  · refine sound.of_map (f := fun r => r) (by rw [rows,List.map_id']) (fun _ => rfl) sound.orderly
      ?_ ?_
    · intro id r found user member
      have alive := sound.seated id user ⟨r,found,member⟩
      have different : user ≠ l.nextTx := Nat.ne_of_lt (sound.fresh user alive)
      exact (still user different).mpr alive
    · intro user alive
      rw [begun]
      by_cases new : user = l.nextTx
      · exact new ▸ Nat.lt_succ_self _
      · exact Nat.lt_succ_of_lt (sound.fresh user ((still user new).mp alive))
  · intro other different _
    exact preservesTx_of_rows rows (looked other different)
  · rw [begun]
    exact Nat.le_succ _

theorem acts_createAccount (sound : l.Sound) (owner : String) (currency : Currency)
    (balance : Int) (now : Instant) (tx : TxId) :
    Acts tx l (l.createAccount owner currency balance now).1 := by
  let new : Row := { account := ⟨l.rows.length + 1,owner,currency,balance,now⟩ }
  have rows : (l.createAccount owner currency balance now).1.rows = l.rows ++ [new] := rfl
  have kept : ∀ id r, l.row? id = some r →
      (l.createAccount owner currency balance now).1.row? id = some r := by
    intro id r found
    rw [row?_append rows,found,Option.some_or]
  have empty : ∀ user, user ∉ new.seats := by
    intro user
    simp [new,Row.seats]
  refine ⟨⟨?_,?_,?_,sound.fresh⟩,?_,fun _ _ live => live,Nat.le_refl _⟩
  · intro n r found
    rw [rows,List.getElem?_append] at found
    split at found
    · exact sound.numbered n r found
    · rename_i bound
      obtain ⟨inside,rfl⟩ := List.getElem?_eq_some_iff.mp found
      have last : n = l.rows.length := by
        simp only [List.length_singleton] at inside
        omega
      simp [last,new,Row.id]
  · intro id r found
    rcases row?_append_cases rows found with old | ⟨_,rfl⟩
    · exact sound.orderly id r old
    · exact ⟨by simp [new,Row.seats],fun _ => rfl⟩
  · rintro id user ⟨r,found,member⟩
    rcases row?_append_cases rows found with old | ⟨_,rfl⟩
    · exact sound.seated id user ⟨r,old,member⟩
    · exact absurd member (empty user)
  · intro other _ _
    refine ⟨rfl,fun id r found => ⟨r,kept id r found,Row.PreservesTx.refl other r⟩,?_⟩
    rintro id absent ⟨r,found,member⟩
    rcases row?_append_cases rows found with old | ⟨_,rfl⟩
    · rw [absent] at old
      cases old
    · exact empty other member

end DoubleEntry.Ledger
