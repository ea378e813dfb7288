import DoubleEntry.Proofs.Phases

namespace DoubleEntry

def Account.bare (a : Account) : Account := { a with createdAt := default }

def Entry.bare (e : Entry) : Entry := { e with id := 0, createdAt := default }

def Transfer.bare (t : Transfer) : Transfer := { t with id := 0, createdAt := default }

def Receipt.bare (r : Receipt) : Receipt :=
  ⟨r.transfer.bare,r.debit.bare,r.credit.bare,r.source.bare,r.destination.bare⟩

def Books.bare (k : Books) : Books :=
  ⟨k.accounts.map Account.bare,k.entries.map Entry.bare,k.transfers.map Transfer.bare⟩

def StoreError.bare : StoreError → StoreError
  | notFound _ => notFound ""
  | transient _ => transient ""
  | connectionLost _ => connectionLost ""
  | constraint _ => constraint ""
  | unavailable _ => unavailable ""

def TransferError.bare : TransferError → TransferError
  | lookup cause => lookup cause.bare
  | store step cause => store step cause.bare
  | e => e

def Outcome.bare : Outcome → Outcome
  | .ok r => .ok r.bare
  | .error e => .error e.bare

-- The same answer twice: the same rows, or a failure of the same kind at the same place.
inductive Outcome.Agrees : Outcome → Outcome → Prop where
  | ok {r r' : Receipt} (rows : r.bare = r'.bare) : Agrees (.ok r) (.ok r')
  | error {e e' : TransferError} (name : e.name = e'.name)
      (cause : e.cause.map StoreError.name = e'.cause.map StoreError.name) (step : e.step = e'.step)
      (kind : e.kind = e'.kind) (code : e.code = e'.code) (retryable : e.retryable = e'.retryable) :
      Agrees (.error e) (.error e')

@[simp] theorem StoreError.name_bare (e : StoreError) : e.bare.name = e.name := by cases e <;> rfl

@[simp] theorem StoreError.kind_bare (e : StoreError) : e.bare.kind = e.kind := by cases e <;> rfl

namespace TransferError

@[simp] theorem name_bare (e : TransferError) : e.bare.name = e.name := by cases e <;> rfl

@[simp] theorem step_bare (e : TransferError) : e.bare.step = e.step := by cases e <;> rfl

@[simp] theorem cause_bare (e : TransferError) :
    e.bare.cause.map StoreError.name = e.cause.map StoreError.name := by
  cases e <;> simp [bare,cause]

@[simp] theorem kind_bare (e : TransferError) : e.bare.kind = e.kind := by
  cases e with
  | store step cause => cases step <;> cases cause <;> rfl
  | _ => simp [bare,kind]

@[simp] theorem code_bare (e : TransferError) : e.bare.code = e.code := by
  have kept := kind_bare e
  cases e <;> simp_all [bare,code]

end TransferError

theorem Outcome.agrees_of_bare {o o' : Outcome} (same : o.bare = o'.bare) : o.Agrees o' := by
  cases o with
  | ok r =>
    cases o' with
    | ok r' => exact .ok (Except.ok.inj same)
    | error e' => cases same
  | error e =>
    cases o' with
    | ok r' => cases same
    | error e' =>
      have alike : e.bare = e'.bare := Except.error.inj same
      have kind : e.kind = e'.kind := by rw [←e.kind_bare,alike,e'.kind_bare]
      refine .error ?_ ?_ ?_ kind ?_ (by rw [TransferError.retryable,TransferError.retryable,kind])
      · rw [←e.name_bare,alike,e'.name_bare]
      · rw [←e.cause_bare,alike,e'.cause_bare]
      · rw [←e.step_bare,alike,e'.step_bare]
      · rw [←e.code_bare,alike,e'.code_bare]

namespace Call

def bare : (call : Call) → call.Row → call.Row
  | insertTransfer _ _ _ => Transfer.bare
  | insertEntry _ _ => Entry.bare
  | addToBalance _ _ => Account.bare
  | begin | commit | rollback => id

def bareAnswer (call : Call) : Except StoreError call.Row → Except StoreError call.Row
  | .ok row => .ok (call.bare row)
  | .error e => .error e.bare

end Call

namespace Books

def account? (k : Books) (id : AccountId) : Option Account := k.accounts.find? (·.id = id)

def add (k : Books) (id : AccountId) (delta : Int) : Books :=
  { k with accounts := k.accounts.map fun a =>
      if a.id = id then { a with balance := a.balance + delta } else a }

-- The rules of the books: what a call inside a transaction brings, and what it makes of them. Ids,
-- times and wordings are left blank.
def serve (k : Books) : (call : Call) → Except StoreError (call.Row × Books)
  | .insertTransfer source destination amount =>
    if amount ≤ 0 ∨ source = destination then .error (.constraint "")
    else if k.account? source = none ∨ k.account? destination = none then .error (.constraint "")
    else
      let row : Transfer := ⟨0,source,destination,amount,default⟩
      .ok (row,{ k with transfers := k.transfers ++ [row] })
  | .insertEntry account amount =>
    if k.account? account = none then .error (.constraint "")
    else
      let row : Entry := ⟨0,account,amount,default⟩
      .ok (row,{ k with entries := k.entries ++ [row] })
  | .addToBalance id delta =>
    match k.account? id with
    | none => .error (.notFound "")
    | some a =>
      if Bigint.Fits (a.balance + delta) then
        .ok ({ a with balance := a.balance + delta },k.add id delta)
      else .error (.constraint "")
  | .begin | .commit | .rollback => .ok ((),k)

theorem account?_bare (k : Books) (id : AccountId) :
    k.bare.account? id = (k.account? id).map Account.bare := by
  simp only [account?,bare,List.find?_map]
  rfl

theorem account?_bare_eq_none {k : Books} {id : AccountId} :
    k.bare.account? id = none ↔ k.account? id = none := by
  rw [account?_bare,Option.map_eq_none_iff]

theorem bare_add (k : Books) (id : AccountId) (delta : Int) :
    (k.add id delta).bare = k.bare.add id delta := by
  simp only [add,bare,List.map_map,Books.mk.injEq,and_true]
  apply List.map_congr_left
  intro a _
  have named : a.bare.id = a.id := rfl
  simp only [Function.comp_apply,named]
  split <;> rfl

end Books

namespace Phase
variable {m : Movement} {limit : Duration} {p p' : Phase} {call : Call}

def bare : Phase → Phase
  | opening => opening
  | recording => recording
  | debiting transfer => debiting transfer.bare
  | crediting transfer debit => crediting transfer.bare debit.bare
  | updatingFirst transfer debit credit => updatingFirst transfer.bare debit.bare credit.bare
  | updatingSecond transfer debit credit first =>
    updatingSecond transfer.bare debit.bare credit.bare first.bare
  | committing r => committing r.bare
  | rollingBack cause => rollingBack cause.bare
  | ended outcome => ended (Outcome.bare outcome)

theorem bare_receipt (m : Movement) (transfer : Transfer) (debit credit : Entry)
    (first second : Account) :
    (receipt m transfer debit credit first second).bare =
      receipt m transfer.bare debit.bare credit.bare first.bare second.bare := by
  unfold receipt
  split <;> rename_i named
  · rw [if_pos (show first.bare.id = m.source from named)]
    rfl
  · rw [if_neg (show ¬first.bare.id = m.source from named)]
    rfl

theorem bare_proceed {step : TransferStep} {onward onward' : call.Row → Phase}
    (rows : ∀ row row', call.bare row = call.bare row' → (onward row).bare = (onward' row').bare)
    (answer answer' : Except StoreError call.Row)
    (alike : call.bareAnswer answer = call.bareAnswer answer') :
    (proceed limit step onward (some answer)).bare =
      (proceed limit step onward' (some answer')).bare := by
  cases answer with
  | ok row =>
    cases answer' with
    | ok row' => exact rows row row' (Except.ok.inj alike)
    | error e' => cases alike
  | error e =>
    cases answer' with
    | ok row' => cases alike
    | error e' =>
      have same : e.bare = e'.bare := Except.error.inj alike
      simp only [proceed,bare,TransferError.bare,same]

theorem next_alike {onward : Option (Except StoreError call.Row) → Phase}
    (alike : p.bare = p'.bare) (next : p.next m limit = .awaitBefore call onward) :
    ∃ onward', p'.next m limit = .awaitBefore call onward' ∧
      ∀ answer answer', call.bareAnswer answer = call.bareAnswer answer' →
        (onward (some answer)).bare = (onward' (some answer')).bare := by
  cases p <;> simp only [Phase.next,reduceCtorEq] at next <;> cases next <;>
    cases p' <;> simp only [bare,reduceCtorEq] at alike
  case recording =>
    exact ⟨_,rfl,bare_proceed fun _ _ row => congrArg debiting row⟩
  case debiting =>
    have transferred := debiting.inj alike
    refine ⟨_,rfl,bare_proceed fun row row' same => ?_⟩
    have debited : row.bare = row'.bare := same
    simp only [bare,transferred,debited]
  case crediting =>
    obtain ⟨transferred,debited⟩ := crediting.inj alike
    refine ⟨_,rfl,bare_proceed fun row row' same => ?_⟩
    have credited : row.bare = row'.bare := same
    simp only [bare,transferred,debited,credited]
  case updatingFirst =>
    obtain ⟨transferred,debited,credited⟩ := updatingFirst.inj alike
    refine ⟨_,rfl,bare_proceed fun row row' same => ?_⟩
    have updated : row.bare = row'.bare := same
    simp only [bare,transferred,debited,credited,updated]
  case updatingSecond =>
    obtain ⟨transferred,debited,credited,updated⟩ := updatingSecond.inj alike
    refine ⟨_,rfl,bare_proceed fun row row' same => ?_⟩
    have updated' : row.bare = row'.bare := same
    simp only [bare,bare_receipt,transferred,debited,credited,updated,updated']
  case committing r r' =>
    have rows : r.bare = r'.bare := committing.inj alike
    refine ⟨_,rfl,fun answer answer' same => ?_⟩
    cases answer with
    | ok =>
      cases answer' with
      | ok => simp only [bare,Outcome.bare,rows]
      | error => cases same
    | error e =>
      cases answer' with
      | ok => cases same
      | error e' =>
        have cause : e.bare = e'.bare := Except.error.inj same
        simp only [bare,Outcome.bare,TransferError.bare,cause]

end Phase
end DoubleEntry
