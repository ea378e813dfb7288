namespace DoubleEntry.Yaml

structure Cursor where
  rest : List Char
  line : Nat := 0
  column : Nat := 0
  offset : Nat := 0
deriving Repr

def isBlankChar (c : Char) : Bool := c == ' ' || c == '\t'

def isBreak (c : Char) : Bool := ['\n','\r','\x85','\u2028','\u2029'].contains c

def isAllowed (c : Char) : Bool :=
  let n := c.toNat
  [9,10,13,0x85].contains n || (0x20 ≤ n && n ≤ 0x7e) || (0xa0 ≤ n && n ≤ 0xd7ff) ||
    (0xe000 ≤ n && n ≤ 0xfffd) || 0x10000 ≤ n

-- The characters of a name: of an anchor, a directive or a tag handle.
def isNameChar (c : Char) : Bool := c.isAlphanum || c == '_' || c == '-'

namespace Cursor

def peek? (c : Cursor) (n : Nat) : Option Char := c.rest[n]?

def sees (c : Cursor) (x : Char) : Bool := c.peek? 0 == some x

def atEnd (c : Cursor) : Bool := c.rest.isEmpty

def seesBlank (c : Cursor) : Bool := (c.peek? 0).any isBlankChar

def seesBreak (c : Cursor) : Bool := (c.peek? 0).any isBreak

-- A blank, a line end or the end of the text, `n` characters ahead.
def endsWord (c : Cursor) (n : Nat) : Bool :=
  (c.peek? n).all fun x => isBlankChar x || isBreak x

def skip (c : Cursor) : Cursor :=
  match c.rest with
  | x :: rest => ⟨rest,c.line,c.column + 1,c.offset + x.utf8Size⟩
  | [] => c

def skipMany : Nat → Cursor → Cursor
  | 0, c => c
  | n + 1, c => skipMany n c.skip

def takeBreak (c : Cursor) : List Char × Cursor :=
  match c.rest with
  | '\r' :: '\n' :: rest => (['\n'],⟨rest,c.line + 1,0,c.offset + 2⟩)
  | '\u2028' :: rest => (['\u2028'],⟨rest,c.line + 1,0,c.offset + 3⟩)
  | '\u2029' :: rest => (['\u2029'],⟨rest,c.line + 1,0,c.offset + 3⟩)
  | x :: rest => (['\n'],⟨rest,c.line + 1,0,c.offset + x.utf8Size⟩)
  | [] => ([],c)

def skipBreak (c : Cursor) : Cursor := c.takeBreak.2

def skipWhile (p : Char → Bool) (c : Cursor) : Cursor :=
  skipMany (c.rest.takeWhile p).length c

-- Three hyphens or three points at the start of a line, and nothing directly after them.
def seesMark (c : Cursor) (x : Char) : Bool :=
  c.column == 0 && (c.rest.take 3 == [x,x,x]) && c.endsWord 3

def seesDocumentMark (c : Cursor) : Bool := c.seesMark '-' || c.seesMark '.'

end Cursor
end DoubleEntry.Yaml
