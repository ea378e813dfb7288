import DoubleEntry.Yaml.Node

namespace DoubleEntry.Yaml

-- The names used so far and the numbers they have now.
abbrev Anchors := List (String × Nat)

namespace Anchors

def add (names : Anchors) (name : String) : Anchors :=
  (name,names.length) :: names.filter (·.1 ≠ name)

def mark (names : Anchors) : Option String → Option Nat × Anchors
  | none => (none,names)
  | some name => (some names.length,names.add name)

end Anchors

namespace Node

mutual
-- Numbers instead of names; an alias needs an anchor before it.
def number : Node String → Anchors → Option (Node Nat × Anchors)
  | reference name, names => (names.lookup name).map fun n => (reference n,names)
  | scalar anchor style tag text, names =>
    let (anchor,names) := names.mark anchor
    some (scalar anchor style tag text,names)
  | sequence anchor items, names =>
    let (anchor,names) := names.mark anchor
    match numberItems items names with
    | none => none
    | some (items,names) => some (sequence anchor items,names)
  | mapping anchor entries, names =>
    let (anchor,names) := names.mark anchor
    match numberEntries entries names with
    | none => none
    | some (entries,names) => some (mapping anchor entries,names)
def numberItems : List (Node String) → Anchors → Option (List (Node Nat) × Anchors)
  | [], names => some ([],names)
  | item :: rest, names =>
    match number item names with
    | none => none
    | some (item,names) =>
      (numberItems rest names).map fun (rest,names) => (item :: rest,names)
def numberEntries :
    List (Node String × Node String) → Anchors → Option (List (Node Nat × Node Nat) × Anchors)
  | [], names => some ([],names)
  | (k,v) :: rest, names =>
    match number k names with
    | none => none
    | some (k,names) =>
      match number v names with
      | none => none
      | some (v,names) =>
        (numberEntries rest names).map fun (rest,names) => ((k,v) :: rest,names)
end

mutual
-- The node with this anchor that begins last.
def anchored? (n : Nat) : Node Nat → Option (Node Nat)
  | reference _ => none
  | scalar anchor style tag text =>
    if anchor = some n then some (scalar anchor style tag text) else none
  | sequence anchor items =>
    match anchoredItem? n items with
    | some node => some node
    | none => if anchor = some n then some (sequence anchor items) else none
  | mapping anchor entries =>
    match anchoredEntry? n entries with
    | some node => some node
    | none => if anchor = some n then some (mapping anchor entries) else none
def anchoredItem? (n : Nat) : List (Node Nat) → Option (Node Nat)
  | [] => none
  | item :: rest =>
    match anchoredItem? n rest with
    | some node => some node
    | none => anchored? n item
def anchoredEntry? (n : Nat) : List (Node Nat × Node Nat) → Option (Node Nat)
  | [] => none
  | (k,v) :: rest =>
    match anchoredEntry? n rest with
    | some node => some node
    | none =>
      match anchored? n v with
      | some node => some node
      | none => anchored? n k
end

end Node

structure Document where
  root : Node Nat

namespace Document

def ofRoot (root : Node String) : Option Document :=
  (root.number []).map fun (root,_) => ⟨root⟩

def read (text : List Char) : Option Document := do
  ofRoot (← Node.ofTokens (← Token.scan text))

def follow (d : Document) : Node Nat → Option (Node Nat)
  | .reference n => d.root.anchored? n
  | node => some node

def text? (d : Document) (v : Node Nat) : Option String :=
  match d.follow v with
  | some (.scalar _ _ _ text) => some text
  | _ => none

-- The text of a scalar that may denote a value of a type: one without marks, or a literal one
-- whose tag names the type.
def textOf? (d : Document) (type : Tag) (v : Node Nat) : Option String :=
  match d.follow v with
  | some (.scalar _ .plain _ text) => some text
  | some (.scalar _ .literal tag text) => if tag = some type then some text else none
  | _ => none

def fields? (d : Document) (v : Node Nat) : Option (List (String × Node Nat)) :=
  match d.follow v with
  | some (.mapping _ entries) => entries.mapM fun (k,v) => (d.text? k).map fun key => (key,v)
  | _ => none

end Document
end DoubleEntry.Yaml
