import DoubleEntry.Account

namespace DoubleEntry

inductive Call where
  | begin
  | insertTransfer (source destination : AccountId) (amount : Int)
  | insertEntry (account : AccountId) (amount : Int)
  | addToBalance (account : AccountId) (delta : Int)
  | commit
  | rollback
deriving DecidableEq, Repr

abbrev Call.Row : Call → Type
  | begin | commit | rollback => Unit
  | insertTransfer _ _ _ => Transfer
  | insertEntry _ _ => Entry
  | addToBalance _ _ => Account

inductive CallKind where
  | begin
  | insertTransfer
  | insertEntry
  | addToBalance
  | commit
  | rollback
deriving DecidableEq, Repr

namespace CallKind

def all : List CallKind := [begin,insertTransfer,insertEntry,addToBalance,commit,rollback]

def name : CallKind → String
  | begin => "begin"
  | insertTransfer => "insert_transfer"
  | insertEntry => "insert_entry"
  | addToBalance => "add_to_balance"
  | commit => "commit"
  | rollback => "rollback"

def ofName? (text : String) : Option CallKind := all.find? (·.name == text)

end CallKind

def Call.kind : Call → CallKind
  | begin => .begin
  | insertTransfer _ _ _ => .insertTransfer
  | insertEntry _ _ => .insertEntry
  | addToBalance _ _ => .addToBalance
  | commit => .commit
  | rollback => .rollback

end DoubleEntry
