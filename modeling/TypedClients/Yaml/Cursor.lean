namespace TypedClients.Yaml

structure Cursor where
  rest : List Char
  index : Nat
  line : Nat
  column : Nat

def isBreak (c : Char) : Bool :=
  c == '\n' || c == '\r' || c.toNat == 0x85 || c.toNat == 0x2028 || c.toNat == 0x2029

def isSpaceOrTab (c : Char) : Bool := c == ' ' || c == '\t'

namespace Cursor

def ofText (s : List Char) : Cursor := ⟨s, 0, 0, 0⟩

def at? (k : Cursor) (n : Nat) : Option Char := k.rest[n]?

def is (k : Cursor) (c : Char) : Bool := k.rest.head? == some c

def atEnd (k : Cursor) : Bool := k.rest.isEmpty

def atBreak (k : Cursor) : Bool := k.rest.head?.any isBreak

def atSpaceOrTab (k : Cursor) : Bool := k.rest.head?.any isSpaceOrTab

def blankAt (k : Cursor) (n : Nat) : Bool :=
  match k.at? n with
  | none => true
  | some c => isSpaceOrTab c || isBreak c

def skip (k : Cursor) (n : Nat) : Cursor :=
  ⟨k.rest.drop n, k.index + n, k.line, k.column + n⟩

def skipBreak (k : Cursor) : Cursor :=
  match k.rest with
  | '\r' :: '\n' :: rest => ⟨rest, k.index + 2, k.line + 1, 0⟩
  | _ :: rest => ⟨rest, k.index + 1, k.line + 1, 0⟩
  | [] => k

/-- What a line break contributes to a text: the two Unicode separators stay themselves. -/
def breakText (k : Cursor) : List Char :=
  match k.rest with
  | c :: _ => if c.toNat == 0x2028 || c.toNat == 0x2029 then [c] else ['\n']
  | [] => []

def skipWhile (p : Char → Bool) (k : Cursor) : Cursor := k.skip (k.rest.takeWhile p).length

def takeWhile (p : Char → Bool) (k : Cursor) : List Char := k.rest.takeWhile p

/-- Three equal marks that stand alone at the start of a line open or close a document. -/
def atDocumentMark (k : Cursor) (c : Char) : Bool :=
  k.column == 0 && k.rest.take 3 == [c, c, c] && k.blankAt 3

end Cursor

end TypedClients.Yaml
