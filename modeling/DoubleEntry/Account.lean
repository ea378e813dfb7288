import DoubleEntry.Currency
import DoubleEntry.Clock.Instant

namespace DoubleEntry

abbrev AccountId := Int
abbrev EntryId := Int
abbrev TransferId := Int

structure Account where
  id : AccountId
  owner : String
  currency : Currency
  balance : Int
  createdAt : Instant
deriving DecidableEq, Repr, Inhabited

structure Entry where
  id : EntryId
  account : AccountId
  amount : Int
  createdAt : Instant
deriving DecidableEq, Repr, Inhabited

structure Transfer where
  id : TransferId
  source : AccountId
  destination : AccountId
  amount : Int
  createdAt : Instant
deriving DecidableEq, Repr, Inhabited

structure Receipt where
  transfer : Transfer
  debit : Entry
  credit : Entry
  source : Account
  destination : Account
deriving DecidableEq, Repr, Inhabited

end DoubleEntry
