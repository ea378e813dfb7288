import DoubleEntry.Json.Text
import DoubleEntry.Yaml.Cursor

namespace DoubleEntry.Yaml

-- The octets of a tag that is spelled out.
abbrev Tag := List UInt8

namespace Tag

def ofText (text : String) : Tag := text.toUTF8.data.toList

def standard : Tag := ofText "tag:yaml.org,2002:"

def bool : Tag := standard ++ ofText "bool"
def int : Tag := standard ++ ofText "int"

def unspecific : Tag := ofText "!"

-- Handles and the prefixes they stand for; of several the first counts.
abbrev Handles := List (String × Tag)

def defaultHandles : Handles := [("!",unspecific),("!!",standard)]

-- Without a handle the suffix is the tag. A handle has to be known.
def resolve (handles : Handles) : Option String → Tag → Option Tag
  | none, suffix => some suffix
  | some handle, suffix => (handles.lookup handle).map (· ++ suffix)

def handle? (c : Cursor) : Option (String × Cursor) :=
  match c.rest with
  | '!' :: body =>
    let name := body.takeWhile isNameChar
    match body.dropWhile isNameChar with
    | '!' :: _ => some (String.ofList ('!' :: name ++ ['!']),c.skipMany (name.length + 2))
    | _ => if name.isEmpty then some ("!",c.skip) else none
  | _ => none

def escapedOctet? (c : Cursor) : Option (Nat × Cursor) :=
  match c.rest with
  | '%' :: high :: low :: _ => do
    return (16 * (← Json.hexValue high) + (← Json.hexValue low),c.skipMany 3)
  | _ => none

-- How many octets follow the first one of a character.
def following? (octet : Nat) : Option Nat :=
  if octet < 0x80 then some 0
  else if octet < 0xc0 then none
  else if octet < 0xe0 then some 1
  else if octet < 0xf0 then some 2
  else if octet < 0xf8 then some 3
  else none

def followingOctets : Nat → Cursor → Option (Tag × Cursor)
  | 0, c => some ([],c)
  | n + 1, c => do
    let (octet,c) ← escapedOctet? c
    if octet < 0x80 ∨ 0xc0 ≤ octet then none
    else
      let (octets,c) ← followingOctets n c
      return (UInt8.ofNat octet :: octets,c)

-- All octets of an escaped character. Their values beyond the leading bits do not matter.
def escapedChar? (c : Cursor) : Option (Tag × Cursor) := do
  let (octet,c) ← escapedOctet? c
  let (octets,c) ← followingOctets (← following? octet) c
  return (UInt8.ofNat octet :: octets,c)

-- Brackets and commas belong to a tag only where something else marks its end.
def isTagChar (bracketed : Bool) (c : Char) : Bool :=
  isNameChar c || ";/?:@&=+$.!~*'()".toList.contains c || (bracketed && ",[]".toList.contains c)

def takeOctets (bracketed : Bool) : Nat → Cursor → Tag → Option (Tag × Cursor)
  | 0, c, acc => some (acc,c)
  | n + 1, c, acc =>
    match c.rest with
    | '%' :: _ => do
      let (octets,c) ← escapedChar? c
      takeOctets bracketed n c (acc ++ octets)
    | x :: _ =>
      if isTagChar bracketed x then takeOctets bracketed n c.skip (acc ++ [UInt8.ofNat x.toNat])
      else some (acc,c)
    | [] => some (acc,c)

-- Octets up to a character that belongs to no tag. A zero octet ends what counts.
def octets? (bracketed : Bool) (c : Cursor) : Option (Tag × Cursor) := do
  let (octets,c) ← takeOctets bracketed c.rest.length c []
  return (octets.takeWhile (· != 0),c)

def someOctets? (bracketed : Bool) (c : Cursor) : Option (Tag × Cursor) := do
  let (octets,after) ← octets? bracketed c
  if after.offset = c.offset then none else some (octets,after)

def read? (c : Cursor) : Option (Option String × Tag × Cursor) :=
  match c.rest with
  | '!' :: '<' :: _ => do
    let (octets,c) ← someOctets? true (c.skipMany 2)
    if c.sees '>' then some (none,octets,c.skip) else none
  | _ =>
    match handle? c with
    | some (handle,after) =>
      if handle = "!" then shorthand c
      else (someOctets? false after).map fun (octets,c) => (some handle,octets,c)
    | none => shorthand c
where
  shorthand (c : Cursor) : Option (Option String × Tag × Cursor) := do
    let (octets,c) ← octets? false c.skip
    return if octets.isEmpty then (none,unspecific,c) else (some "!",octets,c)

end Tag
end DoubleEntry.Yaml
