import DoubleEntry.Yaml.Scalar
import DoubleEntry.Yaml.Tag

namespace DoubleEntry.Yaml

-- How a scalar is written: without marks, behind a bar or an angle bracket, or in quotes.
inductive ScalarStyle where
  | plain
  | literal
  | folded
  | quoted
deriving DecidableEq, Repr, Inhabited

inductive Token where
  | streamEnd
  | version (major minor : Nat)
  | tagHandle (handle : String) (meaning : Tag)
  | documentStart
  | documentEnd
  | blockSequenceStart
  | blockMappingStart
  | blockEnd
  | flowSequenceStart
  | flowSequenceEnd
  | flowMappingStart
  | flowMappingEnd
  | blockEntry
  | flowEntry
  | key
  | value
  | alias (name : String)
  | anchor (name : String)
  | tag (handle : Option String) (suffix : Tag)
  | scalar (style : ScalarStyle) (text : String)
deriving DecidableEq, Repr, Inhabited

-- A place where a key may have begun; it has to be on the line of its colon.
structure KeyStart where
  token : Nat
  required : Bool
  line : Nat
  column : Nat
  offset : Nat

structure Scanner where
  cursor : Cursor
  tokens : List Token := []
  indent : Int := -1
  outer : List Int := []
  keyAllowed : Bool := true
  -- one possible key for each open bracket, and one for the block around them
  keys : List (Option KeyStart) := [none]
  finished : Bool := false

namespace Scanner

def inFlow (s : Scanner) : Bool := 1 < s.keys.length

def column (s : Scanner) : Int := s.cursor.column

def emit (s : Scanner) (t : Token) : Scanner := { s with tokens := s.tokens ++ [t] }

def emitAt (s : Scanner) (n : Nat) (t : Token) : Scanner :=
  { s with tokens := s.tokens.take n ++ t :: s.tokens.drop n }

def advance (s : Scanner) (n : Nat) : Scanner := { s with cursor := s.cursor.skipMany n }

def setKey (s : Scanner) (k : Option KeyStart) : Scanner := { s with keys := k :: s.keys.tail }

def possibleKey (s : Scanner) : Option KeyStart := s.keys.head?.join

-- A key that had to come and did not is an error.
def dropKey (s : Scanner) : Option Scanner :=
  if s.possibleKey.any (·.required) then none else some (s.setKey none)

def saveKey (s : Scanner) : Option Scanner :=
  if s.keyAllowed then do
    let s' ← s.dropKey
    return s'.setKey (some ⟨s.tokens.length,!s.inFlow && s.indent == s.column,
      s.cursor.line,s.cursor.column,s.cursor.offset⟩)
  else some s

-- A key ends on its own line and within 1024 octets.
def dropStale (s : Scanner) : Option Scanner := do
  let keys ← s.keys.mapM fun k =>
    match k with
    | some start =>
      if start.line < s.cursor.line || start.offset + 1024 < s.cursor.offset then
        (if start.required then none else some none)
      else some k
    | none => some none
  return { s with keys := keys }

def roll (s : Scanner) (column : Int) (place : Option Nat) (t : Token) : Scanner :=
  if !s.inFlow && s.indent < column then
    let s := { s with outer := s.indent :: s.outer, indent := column }
    match place with
    | some n => s.emitAt n t
    | none => s.emit t
  else s

def unrollWithin : Nat → Int → Scanner → Scanner
  | 0, _, s => s
  | n + 1, column, s =>
    if column < s.indent then
      unrollWithin n column
        { s.emit .blockEnd with indent := s.outer.headD (-1), outer := s.outer.tail }
    else s

def unroll (s : Scanner) (column : Int) : Scanner :=
  if s.inFlow then s else unrollWithin (s.outer.length + 1) column s

def skipToToken : Nat → Scanner → Scanner
  | 0, s => s
  | n + 1, s =>
    -- A byte order mark may start a line; it counts as a column.
    let c := if s.cursor.column == 0 && s.cursor.sees '\ufeff' then s.cursor.skip else s.cursor
    let c := c.skipWhile fun x => x == ' ' || (x == '\t' && (s.inFlow || !s.keyAllowed))
    let c := if c.sees '#' then c.skipWhile fun x => !isBreak x else c
    if c.seesBreak then
      skipToToken n { s with cursor := c.skipBreak, keyAllowed := s.keyAllowed || !s.inFlow }
    else { s with cursor := c }

def leaveBlocks (s : Scanner) : Option Scanner := do
  let s ← (s.unroll (-1)).dropKey
  return { s with keyAllowed := false }

def fetchEnd (s : Scanner) : Option Scanner := do
  let s ← s.leaveBlocks
  return { s.emit .streamEnd with finished := true }

def restOfLine (c : Cursor) : Option Cursor :=
  let c := c.skipWhile isBlankChar
  let c := if c.sees '#' then c.skipWhile fun x => !isBreak x else c
  if c.atEnd || c.seesBreak then some c.skipBreak else none

def versionNumber (c : Cursor) : Option (Nat × Cursor) :=
  let digits := c.rest.takeWhile Char.isDigit
  if digits.isEmpty || 9 < digits.length then none
  else some (digits.foldl (fun n d => 10 * n + (d.toNat - 48)) 0,c.skipMany digits.length)

def versionDirective (c : Cursor) : Option (Token × Cursor) := do
  let (major,c) ← versionNumber (c.skipWhile isBlankChar)
  if !c.sees '.' then none
  let (minor,c) ← versionNumber c.skip
  return (.version major minor,c)

def tagDirective (c : Cursor) : Option (Token × Cursor) := do
  let (handle,c) ← Tag.handle? (c.skipWhile isBlankChar)
  if !c.seesBlank then none
  let (meaning,c) ← Tag.someOctets? true (c.skipWhile isBlankChar)
  if !c.endsWord 0 then none
  return (.tagHandle handle meaning,c)

def fetchDirective (s : Scanner) : Option Scanner := do
  let s ← s.leaveBlocks
  let name := s.cursor.skip.rest.takeWhile isNameChar
  let c := s.cursor.skipMany (name.length + 1)
  if !c.endsWord 0 then none
  let (token,c) ←
    if name = "YAML".toList then versionDirective c
    else if name = "TAG".toList then tagDirective c
    else none
  return { s.emit token with cursor := ← restOfLine c }

def fetchMark (s : Scanner) (t : Token) : Option Scanner := do
  let s ← s.leaveBlocks
  return (s.emit t).advance 3

def openFlow (s : Scanner) (t : Token) : Option Scanner := do
  let s ← s.saveKey
  return { (s.emit t).advance 1 with keys := none :: s.keys, keyAllowed := true }

def closeFlow (s : Scanner) (t : Token) : Option Scanner := do
  let s ← s.dropKey
  let keys := if s.inFlow then s.keys.tail else s.keys
  return { (s.emit t).advance 1 with keys := keys, keyAllowed := false }

def fetchFlowEntry (s : Scanner) : Option Scanner := do
  let s ← s.dropKey
  return { (s.emit .flowEntry).advance 1 with keyAllowed := true }

def fetchBlockEntry (s : Scanner) : Option Scanner := do
  if !s.inFlow && !s.keyAllowed then none
  let s ← (s.roll s.column none .blockSequenceStart).dropKey
  return { (s.emit .blockEntry).advance 1 with keyAllowed := true }

def fetchKey (s : Scanner) : Option Scanner := do
  if !s.inFlow && !s.keyAllowed then none
  let s ← (s.roll s.column none .blockMappingStart).dropKey
  return { (s.emit .key).advance 1 with keyAllowed := !s.inFlow }

def fetchValue (s : Scanner) : Option Scanner :=
  match s.possibleKey with
  | some start =>
    let s := (s.emitAt start.token .key).roll start.column (some start.token) .blockMappingStart
    some { ((s.setKey none).emit .value).advance 1 with keyAllowed := false }
  | none =>
    if !s.inFlow && !s.keyAllowed then none
    else
      let s := s.roll s.column none .blockMappingStart
      some { (s.emit .value).advance 1 with keyAllowed := !s.inFlow }

def afterName : List Char := ['?',':',',',']','\x7d','%','@','\x60']

def fetchAnchor (s : Scanner) (make : String → Token) : Option Scanner := do
  let s ← s.saveKey
  let name := s.cursor.skip.rest.takeWhile isNameChar
  let c := s.cursor.skipMany (name.length + 1)
  if name.isEmpty || !(c.endsWord 0 || (c.peek? 0).any (afterName.contains ·)) then none
  return { s.emit (make (String.ofList name)) with cursor := c, keyAllowed := false }

def fetchTag (s : Scanner) : Option Scanner := do
  let s ← s.saveKey
  let (handle,suffix,c) ← Tag.read? s.cursor
  if !(c.endsWord 0 || (s.inFlow && c.sees ',')) then none
  return { s.emit (.tag handle suffix) with cursor := c, keyAllowed := false }

def fetchBlockScalar (s : Scanner) (folded : Bool) : Option Scanner := do
  let s ← s.dropKey
  let (text,c) ← readBlock folded s.indent s.cursor
  let style := if folded then ScalarStyle.folded else .literal
  return { s.emit (.scalar style (String.ofList text)) with cursor := c, keyAllowed := true }

def fetchQuoted (s : Scanner) (quote : Char) : Option Scanner := do
  let s ← s.saveKey
  let (text,c) ← readQuoted quote s.cursor
  return { s.emit (.scalar .quoted (String.ofList text)) with cursor := c, keyAllowed := false }

def fetchPlain (s : Scanner) : Option Scanner := do
  let s ← s.saveKey
  let p ← readPlain s.inFlow (s.indent + 1) s.cursor
  return { s.emit (.scalar .plain (String.ofList p.text)) with
    cursor := p.after, keyAllowed := p.broken }

def indicators : List Char :=
  ['-','?',':',',','[',']','\x7b','\x7d','#','&','*','!','|','>','\'','"','%','@','\x60']

def startsPlain (s : Scanner) (x : Char) : Bool :=
  (!isBlankChar x && !isBreak x && !indicators.contains x) ||
    (x == '-' && !(s.cursor.peek? 1).any isBlankChar) ||
    (!s.inFlow && (x == '?' || x == ':') && !s.cursor.endsWord 1)

def fetch (s : Scanner) : Option Scanner := do
  let s ← (skipToToken (s.cursor.rest.length + 1) s).dropStale
  let s := s.unroll s.column
  match s.cursor.peek? 0 with
  | none => s.fetchEnd
  | some x =>
    let c := s.cursor
    if c.column == 0 && x == '%' then s.fetchDirective
    else if c.seesMark '-' then s.fetchMark .documentStart
    else if c.seesMark '.' then s.fetchMark .documentEnd
    else if x == '[' then s.openFlow .flowSequenceStart
    else if x == '\x7b' then s.openFlow .flowMappingStart
    else if x == ']' then s.closeFlow .flowSequenceEnd
    else if x == '\x7d' then s.closeFlow .flowMappingEnd
    else if x == ',' then s.fetchFlowEntry
    else if x == '-' && c.endsWord 1 then s.fetchBlockEntry
    else if x == '?' && (s.inFlow || c.endsWord 1) then s.fetchKey
    else if x == ':' && (s.inFlow || c.endsWord 1) then s.fetchValue
    else if x == '*' then s.fetchAnchor .alias
    else if x == '&' then s.fetchAnchor .anchor
    else if x == '!' then s.fetchTag
    else if x == '|' && !s.inFlow then s.fetchBlockScalar false
    else if x == '>' && !s.inFlow then s.fetchBlockScalar true
    else if x == '\'' || x == '"' then s.fetchQuoted x
    else if s.startsPlain x then s.fetchPlain
    else none

def fetchAll : Nat → Scanner → Option (List Token)
  | 0, _ => none
  | n + 1, s =>
    if s.finished then some s.tokens
    else
      match s.fetch with
      | some s => fetchAll n s
      | none => none

end Scanner

-- The tokens of a text. Every step but the last takes a character, so the steps are enough.
def Token.scan (text : List Char) : Option (List Token) :=
  if text.all isAllowed then Scanner.fetchAll (text.length + 2) { cursor := ⟨text,0,0,0⟩ }
  else none

end DoubleEntry.Yaml
