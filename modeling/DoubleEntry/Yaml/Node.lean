import DoubleEntry.Yaml.Token

namespace DoubleEntry.Yaml

-- Anchors are labels, and aliases refer to them: first by names, later by numbers.
inductive Node (Label : Type) where
  | reference (label : Label)
  | scalar (anchor : Option Label) (style : ScalarStyle) (tag : Option Tag) (text : String)
  | sequence (anchor : Option Label) (items : List (Node Label))
  | mapping (anchor : Option Label) (entries : List (Node Label × Node Label))
deriving Inhabited

namespace Node

def empty : Node String := scalar none .plain none ""

abbrev Read (α : Type) := Option (α × List Token)

-- In front of these the node is left out.
def endsEntry : List Token → Bool
  | .blockEntry :: _ | .blockEnd :: _ => true
  | _ => false

def endsKey : List Token → Bool
  | .key :: _ | .value :: _ | .blockEnd :: _ => true
  | _ => false

def endsIndentless : List Token → Bool
  | .blockEntry :: _ | .key :: _ | .value :: _ | .blockEnd :: _ => true
  | _ => false

def endsFlow (close : Token) (ts : List Token) : Bool :=
  ts.head?.any fun t => t == .flowEntry || t == close

def endsFlowKey (close : Token) (ts : List Token) : Bool :=
  endsFlow close ts || ts.head? == some .value

structure Properties where
  anchor : Option String := none
  tag : Option Tag := none

namespace Properties

-- An anchor and a tag, in either order; only declared handles may be used.
def read (handles : Tag.Handles) : List Token → Read Properties
  | .anchor name :: .tag handle suffix :: ts =>
    (Tag.resolve handles handle suffix).map fun tag => (⟨some name,some tag⟩,ts)
  | .tag handle suffix :: .anchor name :: ts =>
    (Tag.resolve handles handle suffix).map fun tag => (⟨some name,some tag⟩,ts)
  | .anchor name :: ts => some (⟨some name,none⟩,ts)
  | .tag handle suffix :: ts =>
    (Tag.resolve handles handle suffix).map fun tag => (⟨none,some tag⟩,ts)
  | ts => some (⟨none,none⟩,ts)

def alone? (p : Properties) : Option (Node String) :=
  if p.anchor.isSome || p.tag.isSome then some (scalar p.anchor .plain p.tag "") else none

end Properties

mutual
-- A node at the front. Block collections may start only where `block` allows it, a sequence
-- without indentation only as the value of a block mapping.
def readNode (handles : Tag.Handles) (fuel : Nat) (block indentless : Bool) (ts : List Token) :
    Read (Node String) :=
  match fuel with
  | 0 => none
  | fuel + 1 =>
    match ts with
    | .alias name :: ts => some (reference name,ts)
    | _ =>
      match Properties.read handles ts with
      | none => none
      | some (p,ts) =>
        let bare := p.alone?.map fun node => (node,ts)
        match ts with
        | .scalar style text :: ts => some (scalar p.anchor style p.tag text,ts)
        | .flowSequenceStart :: ts =>
          (readFlowItems handles fuel true ts).map fun (items,ts) => (sequence p.anchor items,ts)
        | .flowMappingStart :: ts =>
          (readFlowEntries handles fuel true ts).map fun (es,ts) => (mapping p.anchor es,ts)
        | .blockEntry :: _ =>
          if indentless then
            (readIndentless handles fuel ts).map fun (items,ts) => (sequence p.anchor items,ts)
          else bare
        | .blockSequenceStart :: ts =>
          if block then
            (readBlockItems handles fuel ts).map fun (items,ts) => (sequence p.anchor items,ts)
          else bare
        | .blockMappingStart :: ts =>
          if block then
            (readBlockEntries handles fuel ts).map fun (es,ts) => (mapping p.anchor es,ts)
          else bare
        | _ => bare
def readBlockItems (handles : Tag.Handles) (fuel : Nat) (ts : List Token) :
    Read (List (Node String)) :=
  match fuel with
  | 0 => none
  | fuel + 1 =>
    match ts with
    | .blockEntry :: ts =>
      match (if endsEntry ts then some (empty,ts) else readNode handles fuel true false ts) with
      | none => none
      | some (item,ts) =>
        (readBlockItems handles fuel ts).map fun (items,ts) => (item :: items,ts)
    | .blockEnd :: ts => some ([],ts)
    | _ => none
def readIndentless (handles : Tag.Handles) (fuel : Nat) (ts : List Token) :
    Read (List (Node String)) :=
  match fuel with
  | 0 => none
  | fuel + 1 =>
    match ts with
    | .blockEntry :: ts =>
      match (if endsIndentless ts then some (empty,ts)
        else readNode handles fuel true false ts) with
      | none => none
      | some (item,ts) =>
        (readIndentless handles fuel ts).map fun (items,ts) => (item :: items,ts)
    | ts => some ([],ts)
def readBlockEntries (handles : Tag.Handles) (fuel : Nat) (ts : List Token) :
    Read (List (Node String × Node String)) :=
  match fuel with
  | 0 => none
  | fuel + 1 =>
    match ts with
    | .blockEnd :: ts => some ([],ts)
    | .key :: ts =>
      match (if endsKey ts then some (empty,ts) else readNode handles fuel true true ts) with
      | none => none
      | some (k,ts) =>
        match readBlockValue handles fuel ts with
        | none => none
        | some (v,ts) =>
          (readBlockEntries handles fuel ts).map fun (es,ts) => ((k,v) :: es,ts)
    | _ => none
-- The value of a block mapping, empty if there is no colon or nothing behind it.
def readBlockValue (handles : Tag.Handles) (fuel : Nat) (ts : List Token) : Read (Node String) :=
  match fuel with
  | 0 => none
  | fuel + 1 =>
    match ts with
    | .value :: ts => if endsKey ts then some (empty,ts) else readNode handles fuel true true ts
    | ts => some (empty,ts)
def readFlowItems (handles : Tag.Handles) (fuel : Nat) (first : Bool) (ts : List Token) :
    Read (List (Node String)) :=
  match fuel with
  | 0 => none
  | fuel + 1 =>
    match ts with
    | .flowSequenceEnd :: ts => some ([],ts)
    | ts =>
      match (match first,ts with
        | true,ts => some ts
        | false,.flowEntry :: ts => some ts
        | false,_ => none) with
      | none => none
      | some (.flowSequenceEnd :: ts) => some ([],ts)
      | some (.key :: ts) =>
        -- One key and its value, without braces. Where the key is left out, the token that shows
        -- it is taken for the key.
        match (if endsFlowKey .flowSequenceEnd ts then some (empty,ts.tail)
          else readNode handles fuel false false ts) with
        | none => none
        | some (k,ts) =>
          match readFlowValue handles fuel .flowSequenceEnd ts with
          | none => none
          | some (v,ts) =>
            (readFlowItems handles fuel false ts).map fun (items,ts) =>
              (mapping none [(k,v)] :: items,ts)
      | some ts =>
        match readNode handles fuel false false ts with
        | none => none
        | some (item,ts) =>
          (readFlowItems handles fuel false ts).map fun (items,ts) => (item :: items,ts)
def readFlowEntries (handles : Tag.Handles) (fuel : Nat) (first : Bool) (ts : List Token) :
    Read (List (Node String × Node String)) :=
  match fuel with
  | 0 => none
  | fuel + 1 =>
    match ts with
    | .flowMappingEnd :: ts => some ([],ts)
    | ts =>
      match (match first,ts with
        | true,ts => some ts
        | false,.flowEntry :: ts => some ts
        | false,_ => none) with
      | none => none
      | some (.flowMappingEnd :: ts) => some ([],ts)
      | some (.key :: ts) =>
        match (if endsFlowKey .flowMappingEnd ts then some (empty,ts)
          else readNode handles fuel false false ts) with
        | none => none
        | some (k,ts) =>
          match readFlowValue handles fuel .flowMappingEnd ts with
          | none => none
          | some (v,ts) =>
            (readFlowEntries handles fuel false ts).map fun (es,ts) => ((k,v) :: es,ts)
      | some ts =>
        match readNode handles fuel false false ts with
        | none => none
        | some (k,ts) =>
          (readFlowEntries handles fuel false ts).map fun (es,ts) => ((k,empty) :: es,ts)
def readFlowValue (handles : Tag.Handles) (fuel : Nat) (close : Token) (ts : List Token) :
    Read (Node String) :=
  match fuel with
  | 0 => none
  | fuel + 1 =>
    match ts with
    | .value :: ts =>
      if endsFlow close ts then some (empty,ts) else readNode handles fuel false false ts
    | ts => some (empty,ts)
end

structure Directives where
  versioned : Bool := false
  handles : Tag.Handles := []

-- Directives up to the start of a document. No version is declared twice, and no handle.
def Directives.read : List Token → Directives → Read Directives
  | .version major minor :: ts, d =>
    if d.versioned || major != 1 || (minor != 1 && minor != 2) then none
    else Directives.read ts { d with versioned := true }
  | .tagHandle handle meaning :: ts, d =>
    if d.handles.any (·.1 == handle) then none
    else Directives.read ts { d with handles := (handle,meaning) :: d.handles }
  | ts, d => some (d,ts)

def Directives.given (d : Directives) : Bool := d.versioned || !d.handles.isEmpty

def isDocumentEdge : List Token → Bool
  | .version .. :: _ | .tagHandle .. :: _ | .documentStart :: _ | .documentEnd :: _
  | .streamEnd :: _ => true
  | _ => false

def dropEnds (ts : List Token) : List Token := ts.dropWhile (· == .documentEnd)

def ofTokens (ts : List Token) : Option (Node String) := do
  let (directives,ts) ← Directives.read ts {}
  let (opened,ts) ← match ts with
    | .documentStart :: ts => some (true,ts)
    | ts => if directives.given then none else some (false,ts)
  let (root,ts) ←
    if isDocumentEdge ts then (if opened then some (empty,ts) else none)
    else readNode (directives.handles ++ Tag.defaultHandles) (4 * ts.length + 4) true false ts
  match ts with
  | .documentEnd :: ts => if dropEnds ts == [.streamEnd] then some root else none
  | ts => if ts == [.streamEnd] then some root else none

end Node
end DoubleEntry.Yaml
