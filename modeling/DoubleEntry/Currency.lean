namespace DoubleEntry

inductive Currency where
  | usd
  | eur
  | egp
  | rub
deriving DecidableEq, Repr, Inhabited

namespace Currency

def all : List Currency := [usd,eur,egp,rub]

def name : Currency → String
  | usd => "USD"
  | eur => "EUR"
  | egp => "EGP"
  | rub => "RUB"

def index : Currency → Nat
  | usd => 0
  | eur => 1
  | egp => 2
  | rub => 3

def sameLetters (a b : String) : Bool := a.toList.map Char.toLower == b.toList.map Char.toLower

-- A name in any mixture of cases; blanks around it are not dropped.
def ofName? (text : String) : Option Currency := all.find? (fun c => sameLetters c.name text)

def unsupported (text : String) : String := "unsupported currency: " ++ text

theorem ofName?_name (c : Currency) : ofName? c.name = some c := by cases c <;> rfl

end Currency
end DoubleEntry
