import DoubleEntry.Transfer.Request

namespace DoubleEntry

abbrev AccountLookup (m : Type → Type) := AccountId → m (Except StoreError (Option Account))

namespace TransferRequest

def checkOwner (r : TransferRequest) (source : Account) : Except TransferError Unit :=
  match r.owner with
  | some owner => if source.owner = owner then .ok () else .error (.notOwner source.id owner)
  | none => .ok ()

def checkCurrencies (source destination : Account) : Except TransferError Unit :=
  if source.currency = destination.currency then .ok ()
  else .error (.currencyMismatch source.currency destination.currency)

variable {m : Type → Type} [Monad m]

def resolve (find : AccountLookup m) (id : AccountId) : ExceptT TransferError m Account := do
  match ← find id with
  | .error e => throw (.lookup e)
  | .ok none => throw (.accountNotFound id)
  | .ok (some account) => return account

-- Source and destination as they are found now; their balances may change before a transfer.
def validate (find : AccountLookup m) (r : TransferRequest) :
    ExceptT TransferError m (Account × Account) := do
  liftExcept r.check
  let source ← resolve find r.source
  liftExcept (r.checkOwner source)
  let destination ← resolve find r.destination
  liftExcept (checkCurrencies source destination)
  return (source,destination)

end TransferRequest
end DoubleEntry
