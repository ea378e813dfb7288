import DoubleEntry.Ledger.Row

namespace DoubleEntry.Row

def seats (r : Row) : List TxId := r.holder.toList ++ r.queue

-- Nobody sits at a row twice, and a free row has no queue.
structure Orderly (r : Row) : Prop where
  distinct : r.seats.Nodup
  vacant : r.holder = none → r.queue = []

theorem mem_seats {r : Row} {tx : TxId} : tx ∈ r.seats ↔ r.holder = some tx ∨ tx ∈ r.queue := by
  simp [seats]

theorem Orderly.not_queued {r : Row} (orderly : r.Orderly) (held : r.holder = some tx) :
    tx ∉ r.queue := by
  have distinct := orderly.distinct
  simp only [seats,held,Option.toList_some,List.singleton_append,List.nodup_cons] at distinct
  exact distinct.1

theorem id_request (tx : TxId) (r : Row) : (r.request tx).id = r.id := by
  simp [id]

theorem id_leave (tx : TxId) (r : Row) : (r.leave tx).id = r.id := by
  simp [id]

theorem id_release (tx : TxId) (r : Row) : (r.release tx).id = r.id := by
  simp [id]

theorem seats_request {r : Row} (orderly : r.Orderly) (tx : TxId) :
    (r.request tx).seats = r.seats ++ [tx] := by
  unfold request
  split
  · rename_i free
    simp [seats,free,orderly.vacant free]
  · simp [seats]

theorem seats_release {r : Row} (orderly : r.Orderly) (tx : TxId) :
    (r.release tx).seats = r.seats.filter (· ≠ tx) := by
  unfold release
  split
  · rename_i held
    have kept : r.queue.filter (· ≠ tx) = r.queue := by
      rw [List.filter_eq_self]
      intro other queued
      have different : other ≠ tx := fun same => orderly.not_queued held (same ▸ queued)
      simpa using different
    have promoted : r.queue.head?.toList ++ r.queue.tail = r.queue := by
      cases r.queue <;> rfl
    simp only [seats,held,Option.toList_some,List.filter_append,kept,promoted]
    simp
  · rename_i other
    cases free : r.holder with
    | none => simp [seats,leave,free]
    | some holder =>
      have different : holder ≠ tx := fun same => other (free.trans (congrArg some same))
      simp [seats,leave,free,different]

theorem mem_seats_leave {r : Row} (other : seated ≠ tx) :
    seated ∈ (r.leave tx).seats ↔ seated ∈ r.seats := by
  simp [mem_seats,leave,other]

theorem not_mem_queue_leave (r : Row) (tx : TxId) : tx ∉ (r.leave tx).queue := by
  simp [leave]

theorem Orderly.request {r : Row} (orderly : r.Orderly) (absent : tx ∉ r.seats) :
    (r.request tx).Orderly := by
  constructor
  · rw [seats_request orderly,List.nodup_append]
    refine ⟨orderly.distinct,by simp,?_⟩
    intro seated member asking same equal
    simp only [List.mem_singleton] at same
    exact absent (same ▸ equal ▸ member)
  · intro free
    unfold Row.request at free
    split at free
    · cases free
    · rename_i taken
      exact absurd free taken

theorem Orderly.release {r : Row} (orderly : r.Orderly) (tx : TxId) : (r.release tx).Orderly := by
  constructor
  · rw [seats_release orderly]
    exact orderly.distinct.filter _
  · unfold Row.release
    split
    · intro free
      cases waiting : r.queue with
      | nil => rfl
      | cons head rest => simp [waiting] at free
    · intro free
      have empty : r.queue = [] := orderly.vacant free
      simp [leave,empty]

theorem Orderly.leave {r : Row} (orderly : r.Orderly) (tx : TxId) : (r.leave tx).Orderly := by
  constructor
  · exact orderly.distinct.sublist (List.Sublist.append (List.Sublist.refl _) List.filter_sublist)
  · intro free
    have empty : r.queue = [] := orderly.vacant free
    simp [Row.leave,empty]

-- What a transaction can rely on while others act on a row: a held row stays held, with its
-- committed account as it is, and its seat is neither lost nor given to it unasked.
structure PreservesTx (tx : TxId) (r r' : Row) : Prop where
  id : r'.id = r.id
  held : r.holder = some tx → r'.holder = some tx ∧ r'.account = r.account
  seats : tx ∈ r'.seats ↔ tx ∈ r.seats

theorem PreservesTx.refl (tx : TxId) (r : Row) :
    r.PreservesTx tx r := ⟨rfl,fun held => ⟨held,rfl⟩,Iff.rfl⟩

theorem PreservesTx.trans {r r' r'' : Row} (one : PreservesTx tx r r')
    (two : PreservesTx tx r' r'') :
    PreservesTx tx r r'' := by
  refine ⟨two.id.trans one.id,?_,two.seats.trans one.seats⟩
  intro held
  have first := one.held held
  have second := two.held first.1
  exact ⟨second.1,second.2.trans first.2⟩

theorem preservesTx_request {r : Row} (orderly : r.Orderly) (other : tx ≠ asking) :
    PreservesTx tx r (r.request asking) := by
  refine ⟨id_request _ _,?_,?_⟩
  · intro held
    simp [request,held]
  · simp [seats_request orderly,other]

theorem preservesTx_leave (r : Row) (other : tx ≠ leaving) : PreservesTx tx r (r.leave leaving) :=
  ⟨id_leave _ _,fun held => ⟨held,rfl⟩,mem_seats_leave other⟩

theorem preservesTx_release {r : Row} (orderly : r.Orderly) (other : tx ≠ leaving) :
    PreservesTx tx r (r.release leaving) := by
  refine ⟨id_release _ _,?_,?_⟩
  · intro held
    simp [release,leave,held,other]
  · simp [seats_release orderly,other]

end DoubleEntry.Row
