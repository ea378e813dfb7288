import DoubleEntry.Proofs.Alike
import DoubleEntry.Store.DriverError

namespace DoubleEntry

def StoreError.reason : StoreError → String
  | notFound reason | transient reason | connectionLost reason | constraint reason
  | unavailable reason => reason

namespace DriverError

-- Only a conflict, told by the server itself, leaves a request with a COMMIT behind it retryable.
def Conflict (e : DriverError) : Prop :=
  ∃ code reason, e = .database (some code) reason ∧ code ∈ ["40001","40P01","55P03","57014"]

def Severed (e : DriverError) : Prop :=
  (∃ reason, e = .inputOutput reason) ∨
    ∃ code reason, e = .database (some code) reason ∧ "08".toList <+: code.toList

def Violation (e : DriverError) : Prop :=
  ∃ code reason, e = .database (some code) reason ∧
    ("23".toList <+: code.toList ∨ code = "22003")

def silent : DriverError → DriverError
  | database sqlstate _ => database sqlstate ""
  | inputOutput _ => inputOutput ""
  | rowNotFound => rowNotFound
  | tls _ => tls ""
  | configuration _ => configuration ""
  | protocol _ => protocol ""
  | decode _ => decode ""
  | columnDecode _ _ => columnDecode "" ""
  | columnNotFound _ => columnNotFound ""
  | typeNotFound _ => typeNotFound ""
  | poolTimedOut => poolTimedOut
  | poolClosed => poolClosed
  | workerCrashed => workerCrashed
  | other _ _ => other "" none

theorem stateClass_eq_iff {code name : String} (two : name.toList.length = 2) :
    stateClass code = name ↔ name.toList <+: code.toList := by
  rw [List.prefix_iff_eq_take,two,stateClass,eq_comm,String.ext_iff,String.toList_ofList]

-- The codes that are looked for one by one lie in none of the classes.
theorem class_of_listed {code : String} (listed : code ∈ conflictStates ++ shutdownStates) :
    ¬"23".toList <+: code.toList ∧ code ≠ "22003" ∧ ¬"08".toList <+: code.toList := by
  revert code
  decide

section
variable {code reason : String}

theorem classify_conflict (listed : code ∈ ["40001","40P01","55P03","57014"]) :
    classify (some code) reason = .transient reason :=
  if_pos listed

theorem classify_violation (breach : "23".toList <+: code.toList ∨ code = "22003") :
    classify (some code) reason = .constraint reason := by
  have unlisted : code ∉ conflictStates ++ shutdownStates := fun listed =>
    breach.elim (class_of_listed listed).1 (class_of_listed listed).2.1
  rw [List.mem_append,not_or] at unlisted
  rw [←stateClass_eq_iff rfl] at breach
  simp only [classify,if_neg unlisted.1,if_neg unlisted.2,if_pos breach]

theorem classify_severed (lost : "08".toList <+: code.toList) :
    classify (some code) reason = .connectionLost reason := by
  have unlisted : code ∉ conflictStates ++ shutdownStates := fun listed =>
    (class_of_listed listed).2.2 lost
  rw [List.mem_append,not_or] at unlisted
  have other : ¬(stateClass code = "23" ∨ code = "22003") := by
    rintro (is | rfl)
    · rw [(stateClass_eq_iff rfl).mpr lost] at is
      exact absurd is (by decide)
    · exact absurd lost (by decide)
  rw [←stateClass_eq_iff rfl] at lost
  simp only [classify,if_neg unlisted.1,if_neg unlisted.2,if_neg other,if_pos lost]

theorem classify_rest (conflict : code ∉ ["40001","40P01","55P03","57014"])
    (breach : ¬("23".toList <+: code.toList ∨ code = "22003"))
    (lost : ¬"08".toList <+: code.toList) :
    classify (some code) reason = .unavailable reason := by
  rw [←stateClass_eq_iff rfl] at breach lost
  simp only [classify,conflictStates,if_neg conflict,if_neg breach,if_neg lost,ite_self]

end

-- The five things a failure is to the store, which differ in the store's own name for it.
theorem toStoreError_cases (e : DriverError) :
    (e.Conflict ∧ e.toStoreError = .transient e.message) ∨
    (e.Severed ∧ e.toStoreError = .connectionLost e.message) ∨
    (e.Violation ∧ e.toStoreError = .constraint e.message) ∨
    (e = .rowNotFound ∧ e.toStoreError = .notFound e.message) ∨
    (¬e.Conflict ∧ ¬e.Severed ∧ ¬e.Violation ∧ e ≠ .rowNotFound ∧
      e.toStoreError = .unavailable e.message) := by
  cases e with
  | database sqlstate reason =>
    cases sqlstate with
    | none => simp [Conflict,Severed,Violation,toStoreError,classify]
    | some code =>
      by_cases conflict : code ∈ ["40001","40P01","55P03","57014"]
      · exact .inl ⟨⟨code,reason,rfl,conflict⟩,classify_conflict conflict⟩
      by_cases lost : "08".toList <+: code.toList
      · exact .inr (.inl ⟨.inr ⟨code,reason,rfl,lost⟩,classify_severed lost⟩)
      by_cases breach : "23".toList <+: code.toList ∨ code = "22003"
      · exact .inr (.inr (.inl ⟨⟨code,reason,rfl,breach⟩,classify_violation breach⟩))
      refine .inr (.inr (.inr (.inr ⟨?_,?_,?_,nofun,classify_rest conflict breach lost⟩)))
      · rintro ⟨_,_,⟨⟩,listed⟩
        exact conflict listed
      · rintro (⟨_,⟨⟩⟩ | ⟨_,_,⟨⟩,listed⟩)
        exact lost listed
      · rintro ⟨_,_,⟨⟩,listed⟩
        exact breach listed
  | inputOutput reason => exact .inr (.inl ⟨.inl ⟨reason,rfl⟩,rfl⟩)
  | rowNotFound => exact .inr (.inr (.inr (.inl ⟨rfl,rfl⟩)))
  | _ => simp [Conflict,Severed,Violation,toStoreError]

theorem conflict_iff {e : DriverError} :
    e.Conflict ↔ ∃ reason, e.toStoreError = .transient reason := by
  constructor
  · rintro ⟨code,reason,rfl,listed⟩
    exact ⟨_,classify_conflict listed⟩
  · rintro ⟨reason,stored⟩
    rcases e.toStoreError_cases with ⟨conflict,-⟩ | ⟨-,is⟩ | ⟨-,is⟩ | ⟨-,is⟩ | ⟨-,-,-,-,is⟩
    · exact conflict
    all_goals simp [is] at stored

theorem severed_iff {e : DriverError} :
    e.Severed ↔ ∃ reason, e.toStoreError = .connectionLost reason := by
  constructor
  · rintro (⟨reason,rfl⟩ | ⟨code,reason,rfl,lost⟩)
    · exact ⟨_,rfl⟩
    · exact ⟨_,classify_severed lost⟩
  · rintro ⟨reason,stored⟩
    rcases e.toStoreError_cases with ⟨-,is⟩ | ⟨severed,-⟩ | ⟨-,is⟩ | ⟨-,is⟩ | ⟨-,-,-,-,is⟩
    · simp [is] at stored
    · exact severed
    all_goals simp [is] at stored

theorem violation_iff {e : DriverError} :
    e.Violation ↔ ∃ reason, e.toStoreError = .constraint reason := by
  constructor
  · rintro ⟨code,reason,rfl,breach⟩
    exact ⟨_,classify_violation breach⟩
  · rintro ⟨reason,stored⟩
    rcases e.toStoreError_cases with ⟨-,is⟩ | ⟨-,is⟩ | ⟨violation,-⟩ | ⟨-,is⟩ | ⟨-,-,-,-,is⟩
    · simp [is] at stored
    · simp [is] at stored
    · exact violation
    all_goals simp [is] at stored

theorem rowNotFound_iff {e : DriverError} :
    e = .rowNotFound ↔ ∃ reason, e.toStoreError = .notFound reason := by
  constructor
  · rintro rfl
    exact ⟨_,rfl⟩
  · rintro ⟨reason,stored⟩
    rcases e.toStoreError_cases with ⟨-,is⟩ | ⟨-,is⟩ | ⟨-,is⟩ | ⟨absent,-⟩ | ⟨-,-,-,-,is⟩
    iterate 3 simp [is] at stored
    · exact absent
    · simp [is] at stored

theorem conflict_of_retryable {e : DriverError}
    (retryable : (TransferError.store .commit e.toStoreError).retryable = true) : e.Conflict := by
  rw [conflict_iff]
  revert retryable
  cases e.toStoreError with
  | transient reason => exact fun _ => ⟨reason,rfl⟩
  | _ => exact nofun

theorem reason_toStoreError (e : DriverError) : e.toStoreError.reason = e.message := by
  rcases e.toStoreError_cases with ⟨-,is⟩ | ⟨-,is⟩ | ⟨-,is⟩ | ⟨-,is⟩ | ⟨-,-,-,-,is⟩ <;>
    rw [is,StoreError.reason]

theorem bare_classify (sqlstate : Option String) (reason reason' : String) :
    (classify sqlstate reason).bare = (classify sqlstate reason').bare := by
  cases sqlstate with
  | none => rfl
  | some code =>
    simp only [classify]
    repeat' split
    all_goals rfl

theorem bare_toStoreError_silent (e : DriverError) :
    e.silent.toStoreError.bare = e.toStoreError.bare := by
  cases e with
  | database sqlstate reason => exact bare_classify ..
  | _ => rfl

-- Whatever the driver reports at whichever step, the words of the report are passed on and nothing
-- is decided by them.
theorem retry_decided (step : TransferStep) (e : DriverError) :
    let t := TransferError.store step e.toStoreError
    (t.retryable = true ↔ e.Conflict ∨ step ≠ .commit ∧ e.Severed) ∧
    (t.kind = .indeterminate ↔ step = .commit ∧ e.Severed) ∧
    (t.code = "OUTCOME_UNKNOWN" ↔ step = .commit ∧ e.Severed) ∧
    (t.kind = .constraint ∧ t.retryable = false ↔ e.Violation ∨ e = .rowNotFound) ∧
    (t.kind = .fatal ↔ ¬e.Conflict ∧ ¬e.Severed ∧ ¬e.Violation ∧ e ≠ .rowNotFound) ∧
    e.toStoreError.reason = e.message ∧
    ∀ e' : DriverError, e'.silent = e.silent →
      (TransferError.store step e'.toStoreError).kind = t.kind := by
  have silent (e' : DriverError) (same : e'.silent = e.silent) :
      (TransferError.store step e'.toStoreError).kind =
        (TransferError.store step e.toStoreError).kind := by
    rw [←TransferError.kind_bare (.store step e'.toStoreError),TransferError.bare,
      ←bare_toStoreError_silent,same,bare_toStoreError_silent]
    exact TransferError.kind_bare (.store step e.toStoreError)
  refine ⟨?_,?_,?_,?_,?_,e.reason_toStoreError,silent⟩
  -- The rest is about the five store errors and the step alone.
  all_goals
    simp only [ne_eq,conflict_iff,severed_iff,violation_iff,rowNotFound_iff]
    generalize e.toStoreError = c
    cases c <;> cases step <;> simp [TransferError.retryable,TransferError.code,TransferError.kind,
      TransferError.storeCode,StoreError.kind,ErrorKind.retryable]

end DriverError
end DoubleEntry
