namespace DoubleEntry.Json

def hexDigit (n : Nat) : Char := "0123456789abcdef".toList.getD n '0'

def escape (c : Char) : List Char :=
  if c = '"' then ['\\','"']
  else if c = '\\' then ['\\','\\']
  else if c = '\x08' then ['\\','b']
  else if c = '\t' then ['\\','t']
  else if c = '\n' then ['\\','n']
  else if c = '\x0c' then ['\\','f']
  else if c = '\r' then ['\\','r']
  else if c.toNat < 32 then
    ['\\','u','0','0',hexDigit (c.toNat / 16),hexDigit (c.toNat % 16)]
  else [c]

def quote (s : List Char) : List Char := '"' :: s.flatMap escape ++ ['"']

def hexValue (c : Char) : Option Nat :=
  if c.isDigit then some (c.toNat - 48)
  else if 'a' ≤ c ∧ c ≤ 'f' then some (c.toNat - 87)
  else if 'A' ≤ c ∧ c ≤ 'F' then some (c.toNat - 55)
  else none

def unit? (a b c d : Char) : Option Nat := do
  return (((← hexValue a) * 16 + (← hexValue b)) * 16 + (← hexValue c)) * 16 + (← hexValue d)

def isHighSurrogate (n : Nat) : Bool := 0xd800 ≤ n && n ≤ 0xdbff
def isLowSurrogate (n : Nat) : Bool := 0xdc00 ≤ n && n ≤ 0xdfff

def plainEscape : Char → Option Char
  | '"' => some '"'
  | '\\' => some '\\'
  | '/' => some '/'
  | 'b' => some '\x08'
  | 'f' => some '\x0c'
  | 'n' => some '\n'
  | 'r' => some '\r'
  | 't' => some '\t'
  | _ => none

-- What a literal denotes. Half a surrogate pair is well formed but denotes no text, and then the
-- whole literal denotes none.
abbrev Content := Option (List Char)

def Content.cons (c : Char) : Content → Content := Option.map (c :: ·)

def readContent : List Char → Option (Content × List Char)
  | [] => none
  | '"' :: rest => some (some [],rest)
  | '\\' :: 'u' :: a :: b :: c :: d :: '\\' :: 'u' :: e :: f :: g :: h :: rest =>
    match unit? a b c d with
    | none => none
    | some high =>
      if isHighSurrogate high then
        match unit? e f g h with
        | none => none
        | some low =>
          (readContent rest).map fun (s,rest) =>
            (if isLowSurrogate low then
              s.cons (Char.ofNat (0x10000 + (high - 0xd800) * 1024 + (low - 0xdc00)))
            else none,rest)
      else
        (readContent ('\\' :: 'u' :: e :: f :: g :: h :: rest)).map fun (s,rest) =>
          (if isLowSurrogate high then none else s.cons (Char.ofNat high),rest)
  | '\\' :: 'u' :: a :: b :: c :: d :: rest =>
    match unit? a b c d with
    | none => none
    | some n =>
      (readContent rest).map fun (s,rest) =>
        (if isHighSurrogate n || isLowSurrogate n then none else s.cons (Char.ofNat n),rest)
  | '\\' :: x :: rest =>
    match plainEscape x with
    | none => none
    | some c => (readContent rest).map fun (s,rest) => (s.cons c,rest)
  | c :: rest =>
    if c = '\\' ∨ c.toNat < 32 then none
    else (readContent rest).map fun (s,rest) => (s.cons c,rest)

end DoubleEntry.Json
