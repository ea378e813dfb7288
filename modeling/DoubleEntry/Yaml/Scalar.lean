import DoubleEntry.Json.Text
import DoubleEntry.Yaml.Cursor

namespace DoubleEntry.Yaml

-- What stands between two words of a scalar. Blanks stay as they are, unless a line ends: a
-- single line end becomes a blank, and of several the first is dropped.
structure Gap where
  blanks : List Char := []
  firstBreak : List Char := []
  moreBreaks : List Char := []
  broken : Bool := false

def Gap.text (g : Gap) : List Char :=
  if g.broken then
    if g.firstBreak = ['\n'] then (if g.moreBreaks.isEmpty then [' '] else g.moreBreaks)
    else g.firstBreak ++ g.moreBreaks
  else g.blanks

-- With a bound on the column, tabs may not indent a continued line.
def takeGap (indent : Option Int) : Nat → Cursor → Gap → Option (Cursor × Gap)
  | 0, c, g => some (c,g)
  | n + 1, c, g =>
    if c.seesBlank then
      if g.broken && c.sees '\t' && indent.any (fun i => (c.column : Int) < i) then none
      else if g.broken then takeGap indent n c.skip g
      else takeGap indent n c.skip { g with blanks := g.blanks ++ c.rest.take 1 }
    else if c.seesBreak then
      let (br,after) := c.takeBreak
      if g.broken then takeGap indent n after { g with moreBreaks := g.moreBreaks ++ br }
      else takeGap indent n after { g with blanks := [], firstBreak := br, broken := true }
    else some (c,g)

def flowIndicators : List Char := [',','[',']','\x7b','\x7d']

def plainRun (flow : Bool) : Nat → Cursor → List Char → Option (Cursor × List Char)
  | 0, c, acc => some (c,acc.reverse)
  | n + 1, c, acc =>
    match c.peek? 0 with
    | none => some (c,acc.reverse)
    | some x =>
      if isBlankChar x || isBreak x then some (c,acc.reverse)
      else if flow && x == ':' && (c.peek? 1).any (('?' :: flowIndicators).contains ·) then none
      else if x == ':' && c.endsWord 1 then some (c,acc.reverse)
      else if flow && flowIndicators.contains x then some (c,acc.reverse)
      else plainRun flow n c.skip (x :: acc)

structure Plain where
  text : List Char
  after : Cursor
  -- the scalar was followed by the end of a line
  broken : Bool

def plainFrom (flow : Bool) (indent : Int) : Nat → Cursor → List Char → Gap → Option Plain
  | 0, c, acc, g => some ⟨acc,c,g.broken⟩
  | n + 1, c, acc, g =>
    if c.seesDocumentMark || c.sees '#' then some ⟨acc,c,g.broken⟩
    else do
      let (c,run) ← plainRun flow c.rest.length c []
      let (acc,g) := if run.isEmpty then (acc,g) else (acc ++ g.text ++ run,{})
      if c.seesBlank || c.seesBreak then
        let (c,g) ← takeGap (some indent) c.rest.length c g
        if !flow && (c.column : Int) < indent then some ⟨acc,c,g.broken⟩
        else plainFrom flow indent n c acc g
      else some ⟨acc,c,g.broken⟩

def readPlain (flow : Bool) (indent : Int) (c : Cursor) : Option Plain :=
  plainFrom flow indent (c.rest.length + 1) c [] {}

def namedEscape : Char → Option Char
  | '0' => some '\x00'
  | 'a' => some '\x07'
  | 'b' => some '\x08'
  | 't' | '\t' => some '\t'
  | 'n' => some '\n'
  | 'v' => some '\x0b'
  | 'f' => some '\x0c'
  | 'r' => some '\r'
  | 'e' => some '\x1b'
  | ' ' => some ' '
  | '"' => some '"'
  | '/' => some '/'
  | '\\' => some '\\'
  | 'N' => some '\x85'
  | '_' => some '\xa0'
  | 'L' => some '\u2028'
  | 'P' => some '\u2029'
  | _ => none

def escapeWidth : Char → Option Nat
  | 'x' => some 2
  | 'u' => some 4
  | 'U' => some 8
  | _ => none

def hexNumber (cs : List Char) : Option Nat :=
  cs.foldlM (fun n c => (Json.hexValue c).map (n * 16 + ·)) 0

def escapedChar (c : Cursor) : Option (Char × Nat) := do
  let x ← c.peek? 1
  match namedEscape x with
  | some y => return (y,2)
  | none =>
    let width ← escapeWidth x
    let digits := (c.rest.drop 2).take width
    let n ← hexNumber digits
    if digits.length = width ∧ n.isValidChar then return (Char.ofNat n,width + 2) else none

def quotedRun (quote : Char) : Nat → Cursor → List Char → Option (Cursor × List Char × Bool)
  | 0, c, acc => some (c,acc.reverse,false)
  | n + 1, c, acc =>
    match c.peek? 0 with
    | none => some (c,acc.reverse,false)
    | some x =>
      if isBlankChar x || isBreak x then some (c,acc.reverse,false)
      else if quote == '\'' && x == '\'' && c.peek? 1 == some '\'' then
        quotedRun quote n (c.skipMany 2) ('\'' :: acc)
      else if x == quote then some (c,acc.reverse,false)
      else if quote == '"' && x == '\\' then
        if (c.peek? 1).any isBreak then some (c.skip.skipBreak,acc.reverse,true)
        else match escapedChar c with
          | some (y,width) => quotedRun quote n (c.skipMany width) (y :: acc)
          | none => none
      else quotedRun quote n c.skip (x :: acc)

def quotedFrom (quote : Char) : Nat → Cursor → List Char → Option (List Char × Cursor)
  | 0, _, _ => none
  | n + 1, c, acc =>
    if c.seesDocumentMark || c.atEnd then none
    else do
      let (c,run,escaped) ← quotedRun quote c.rest.length c []
      let acc := acc ++ run
      if c.sees quote then some (acc,c.skip)
      else
        let (c,g) ← takeGap none c.rest.length c { broken := escaped }
        quotedFrom quote n c (acc ++ g.text)

def readQuoted (quote : Char) (c : Cursor) : Option (List Char × Cursor) :=
  quotedFrom quote (c.rest.length + 1) c.skip []

inductive Chomping where
  | strip
  | clip
  | keep
deriving DecidableEq

def chomping? : Option Char → Option Chomping
  | some '-' => some .strip
  | some '+' => some .keep
  | _ => none

def increment? (x : Option Char) : Option (Option Nat) :=
  match x with
  | some d => if d.isDigit then (if d = '0' then none else some (some (d.toNat - 48))) else some none
  | none => some none

def blockHeader (c : Cursor) : Option (Chomping × Option Nat × Cursor) :=
  match chomping? (c.peek? 0) with
  | some chomping => do
    let c := c.skip
    let increment ← increment? (c.peek? 0)
    return (chomping,increment,if increment.isSome then c.skip else c)
  | none => do
    let increment ← increment? (c.peek? 0)
    let c := if increment.isSome then c.skip else c
    match increment,chomping? (c.peek? 0) with
    | some _,some chomping => return (chomping,increment,c.skip)
    | _,_ => return (.clip,increment,c)

-- Empty lines before a line of a block scalar. Without a known indentation all spaces are eaten,
-- and the widest line is remembered.
def blockBreaks (indent : Nat) : Nat → Cursor → Nat → List Char → Option (Cursor × Nat × List Char)
  | 0, c, widest, acc => some (c,widest,acc)
  | n + 1, c, widest, acc =>
    let free := fun (c : Cursor) => indent == 0 || c.column < indent
    let spaces := (c.rest.takeWhile (· == ' ')).length
    let c := c.skipMany (if indent == 0 then spaces else min spaces (indent - c.column))
    let widest := max widest c.column
    if free c && c.sees '\t' then none
    else if c.seesBreak then
      let (br,after) := c.takeBreak
      blockBreaks indent n after widest (acc ++ br)
    else some (c,widest,acc)

structure BlockState where
  text : List Char := []
  leadingBreak : List Char := []
  trailingBreaks : List Char := []
  leadingBlank : Bool := false

def blockLines (folded : Bool) (indent : Nat) :
    Nat → Cursor → BlockState → Option (Cursor × BlockState)
  | 0, c, s => some (c,s)
  | n + 1, c, s =>
    if c.column == indent && !c.atEnd then do
      let joined :=
        if folded && s.leadingBreak == ['\n'] && !s.leadingBlank && !c.seesBlank then
          s.text ++ (if s.trailingBreaks.isEmpty then [' '] else [])
        else s.text ++ s.leadingBreak
      let line := c.rest.takeWhile fun x => !isBreak x
      let after := c.skipMany line.length
      let (br,after) := after.takeBreak
      let (next,_,breaks) ← blockBreaks indent (after.rest.length + 1) after 0 []
      blockLines folded indent n next
        ⟨joined ++ s.trailingBreaks ++ line,br,breaks,c.seesBlank⟩
    else some (c,s)

-- The cursor is at the indicator; `parent` is the indentation of the surrounding block.
def readBlock (folded : Bool) (parent : Int) (c : Cursor) : Option (List Char × Cursor) := do
  let (chomping,increment,c) ← blockHeader c.skip
  let c := c.skipWhile isBlankChar
  let c := if c.sees '#' then c.skipWhile fun x => !isBreak x else c
  if !(c.atEnd || c.seesBreak) then none
  let c := c.skipBreak
  let known := increment.elim 0 fun k => (if 0 ≤ parent then parent.toNat else 0) + k
  let (c,widest,breaks) ← blockBreaks known (c.rest.length + 1) c 0 []
  let indent := if known == 0 then max 1 (max widest (parent + 1).toNat) else known
  let (c,s) ← blockLines folded indent (c.rest.length + 1) c { trailingBreaks := breaks }
  let tail :=
    match chomping with
    | .strip => []
    | .clip => s.leadingBreak
    | .keep => s.leadingBreak ++ s.trailingBreaks
  return (s.text ++ tail,c)

end DoubleEntry.Yaml
