import TypedClients.Yaml.Text

namespace TypedClients.Yaml

inductive Token where
  | versionDirective
  | tagDirective (handle uri : String)
  | documentStart
  | documentEnd
  | blockSequenceStart
  | blockMappingStart
  | blockEnd
  | flowSequenceStart
  | flowSequenceEnd
  | flowMappingStart
  | flowMappingEnd
  | blockEntry
  | flowEntry
  | key
  | value
  | alias (name : String)
  | anchor (name : String)
  | tag (handle suffix : String)
  | scalar (text : String) (plain : Bool)
deriving DecidableEq, Repr

/-- A place where a mapping key may have begun, should a colon follow on the same line. -/
structure KeyMark where
  required : Bool
  position : Nat
  index : Nat
  line : Nat
  column : Nat

/-- `indents` lists the columns of the open block collections, innermost first. `marks` holds one
entry for the block level and one for each open flow collection, innermost first. -/
structure Scan where
  cursor : Cursor
  /-- Latest first. -/
  tokens : List Token := []
  indents : List Nat := []
  marks : List (Option KeyMark) := [none]
  keyAllowed : Bool := true

namespace Scan

def flowLevel (s : Scan) : Nat := s.marks.length - 1

def inFlow (s : Scan) : Bool := s.flowLevel != 0

def push (s : Scan) (t : Token) : Scan := { s with tokens := t :: s.tokens }

def insertAt (s : Scan) (position : Nat) (ts : List Token) : Scan :=
  let above := s.tokens.length - position
  { s with tokens := s.tokens.take above ++ ts.reverse ++ s.tokens.drop above }

def setMark (s : Scan) (m : Option KeyMark) : Scan := { s with marks := m :: s.marks.tail }

/-- Forgets the pending key. One that had to be a key is an error. -/
def dropMark (s : Scan) : Option Scan :=
  match s.marks.head? with
  | some (some m) => if m.required then none else some (s.setMark none)
  | _ => some s

/-- A pending key ends with its line and after 1024 characters. -/
def staleMarks (s : Scan) : Option Scan := do
  let marks ← s.marks.mapM fun m =>
    match m with
    | some k =>
      if k.line < s.cursor.line || k.index + 1024 < s.cursor.index then
        if k.required then none else some none
      else some (some k)
    | none => some none
  some { s with marks }

def saveMark (s : Scan) : Option Scan :=
  if s.keyAllowed then do
    let required := !s.inFlow && s.indents.head? == some s.cursor.column
    let s ← s.dropMark
    some (s.setMark (some ⟨required, s.tokens.length, s.cursor.index, s.cursor.line,
      s.cursor.column⟩))
  else some s

def popWhile (column : Option Nat) : List Nat → List Token → List Nat × List Token
  | [], ts => ([], ts)
  | i :: rest, ts =>
    if column.all (· < i) then popWhile column rest (.blockEnd :: ts) else (i :: rest, ts)

/-- Closes the block collections that are indented beyond `column`; all of them when there is
none. -/
def unroll (s : Scan) (column : Option Nat) : Scan :=
  if s.inFlow then s
  else
    let (indents, tokens) := popWhile column s.indents s.tokens
    { s with indents, tokens }

def opens (s : Scan) (column : Nat) : Bool := !s.inFlow && s.indents.head?.all (· < column)

def roll (s : Scan) (t : Token) : Scan :=
  if s.opens s.cursor.column then
    { s with indents := s.cursor.column :: s.indents, tokens := t :: s.tokens }
  else s

def skip (s : Scan) (n : Nat) : Scan := { s with cursor := s.cursor.skip n }

/-- Moves over blanks, comments and line breaks. Outside flow collections a line break lets a key
begin, and a tab may not stand where one can. -/
def toNext : Nat → Scan → Scan
  | 0, s => s
  | fuel + 1, s =>
    let k := s.cursor
    let k := if k.index == 0 && k.rest.head?.any (·.toNat == 0xFEFF)
      then { k with rest := k.rest.tail } else k
    let k := k.skipWhile fun c => c == ' ' || ((s.inFlow || !s.keyAllowed) && c == '\t')
    let k := if k.is '#' then k.skipWhile fun c => !isBreak c else k
    if k.atBreak then
      toNext fuel { s with cursor := k.skipBreak, keyAllowed := s.keyAllowed || !s.inFlow }
    else { s with cursor := k }

def finish (s : Scan) : Option (List Token) := do
  let s ← (s.unroll none).dropMark
  some s.tokens.reverse

def documentMark (s : Scan) (t : Token) : Option Scan := do
  let s ← (s.unroll none).dropMark
  some ({ s with keyAllowed := false }.skip 3 |>.push t)

def flowStart (s : Scan) (t : Token) : Option Scan := do
  let s ← s.saveMark
  some ({ s with marks := none :: s.marks, keyAllowed := true }.skip 1 |>.push t)

def flowEnd (s : Scan) (t : Token) : Option Scan := do
  let s ← s.dropMark
  let marks := if s.inFlow then s.marks.tail else s.marks
  some ({ s with marks, keyAllowed := false }.skip 1 |>.push t)

def flowEntry (s : Scan) : Option Scan := do
  let s ← s.dropMark
  some ({ s with keyAllowed := true }.skip 1 |>.push .flowEntry)

def blockEntry (s : Scan) : Option Scan := do
  if !s.inFlow && !s.keyAllowed then none
  let s ← (s.roll .blockSequenceStart).dropMark
  some ({ s with keyAllowed := true }.skip 1 |>.push .blockEntry)

def explicitKey (s : Scan) : Option Scan := do
  if !s.inFlow && !s.keyAllowed then none
  let s ← (s.roll .blockMappingStart).dropMark
  some ({ s with keyAllowed := !s.inFlow }.skip 1 |>.push .key)

/-- A colon turns the pending key into a key; a mapping may begin there too. -/
def colon (s : Scan) : Option Scan :=
  match s.marks.head? with
  | some (some m) =>
    let s := s.setMark none
    let s :=
      if s.opens m.column then
        { s.insertAt m.position [.blockMappingStart, .key] with indents := m.column :: s.indents }
      else s.insertAt m.position [.key]
    some ({ s with keyAllowed := false }.skip 1 |>.push .value)
  | _ =>
    if !s.inFlow && !s.keyAllowed then none
    else some ({ s.roll .blockMappingStart with keyAllowed := !s.inFlow }.skip 1 |>.push .value)

def isNameChar (c : Char) : Bool := c.isAlphanum || c == '_' || c == '-'

def endsName (k : Cursor) : Bool :=
  k.blankAt 0 || k.rest.head?.any fun c => "?:,]%@\x7d".toList.contains c || c.toNat == 96

def named (s : Scan) (make : String → Token) : Option Scan := do
  let s ← s.saveMark
  let k := s.cursor.skip 1
  let name := k.takeWhile isNameChar
  let k := k.skip name.length
  if name.isEmpty || !endsName k then none
  else some ({ s with cursor := k, keyAllowed := false }.push (make (String.ofList name)))

def isUriChar (c : Char) : Bool := isNameChar c || ";/?:@&=+$.!~*()%[],\x27".toList.contains c

def isTagChar (c : Char) : Bool := isNameChar c || ";/?:@&=+$.!~*()%\x27".toList.contains c

/-- A tag in its three spellings: whole between angle brackets, behind a handle, or alone. -/
def tag? (k : Cursor) : Option (Token × Cursor) :=
  if k.at? 1 == some '<' then
    let k := k.skip 2
    let uri := k.takeWhile isUriChar
    let k := k.skip uri.length
    if !uri.isEmpty && k.is '>' then some (.tag "" (String.ofList uri), k.skip 1) else none
  else
    let handle := (k.skip 1).takeWhile isNameChar
    if (k.at? (handle.length + 1)) == some '!' then
      let k := k.skip (handle.length + 2)
      let suffix := k.takeWhile isTagChar
      if suffix.isEmpty then none
      else some (.tag ("!" ++ String.ofList handle ++ "!") (String.ofList suffix),
        k.skip suffix.length)
    else
      let k := k.skip 1
      let suffix := k.takeWhile isTagChar
      some (.tag "!" (String.ofList suffix), k.skip suffix.length)

def taggedNode (s : Scan) : Option Scan := do
  let s ← s.saveMark
  let (t, k) ← tag? s.cursor
  if k.blankAt 0 || (s.inFlow && k.is ',') then
    some ({ s with cursor := k, keyAllowed := false }.push t)
  else none

def directive (s : Scan) : Option Scan := do
  let s ← (s.unroll none).dropMark
  let line := (s.cursor.skip 1).takeWhile fun c => !isBreak c
  let words := ((String.ofList line).splitOn " ").filter (· != "")
  let rec uncommented : List String → List String
    | [] => []
    | w :: ws => if w.startsWith "#" then [] else w :: uncommented ws
  let token ← match uncommented words with
    | ["YAML", version] =>
      if version == "1.1" || version == "1.2" then some Token.versionDirective else none
    | ["TAG", handle, uri] => some (.tagDirective handle uri)
    | _ => none
  some ({ s with keyAllowed := false }.skip (line.length + 1) |>.push token)

def block (s : Scan) (literal : Bool) : Option Scan := do
  let s ← s.dropMark
  let (text, k) ← readBlock literal s.indents.head? (s.cursor.skip 1)
  some ({ s with cursor := k, keyAllowed := true }.push (.scalar (String.ofList text) false))

def quoted (s : Scan) (double : Bool) : Option Scan := do
  let s ← s.saveMark
  let k := s.cursor.skip 1
  let (text, k) ← readQuoted double (k.rest.length + 1) [] k
  some ({ s with cursor := k, keyAllowed := false }.push (.scalar (String.ofList text) false))

def plain (s : Scan) : Option Scan := do
  let s ← s.saveMark
  let indent := match s.indents.head? with
    | some i => i + 1
    | none => 0
  let (text, broken, k) ← readPlain s.inFlow indent (s.cursor.rest.length + 1) [] {} s.cursor
  some ({ s with cursor := k, keyAllowed := broken }.push (.scalar (String.ofList text) true))

def isIndicator (c : Char) : Bool :=
  "-?:,[]\x7b\x7d#&*!|>\x27\x22%@\x60\t".toList.contains c

def startsPlain (s : Scan) (c : Char) : Bool :=
  let k := s.cursor
  !isIndicator c || (c == '-' && !(k.at? 1).any isSpaceOrTab) ||
    (!s.inFlow && (c == '?' || c == ':') && !k.blankAt 1)

def next (s : Scan) (c : Char) : Option Scan :=
  let k := s.cursor
  let loose := s.inFlow || k.blankAt 1
  if k.column == 0 && c == '%' then s.directive
  else if k.atDocumentMark '-' then s.documentMark .documentStart
  else if k.atDocumentMark '.' then s.documentMark .documentEnd
  else if c == '[' then s.flowStart .flowSequenceStart
  else if c == '{' then s.flowStart .flowMappingStart
  else if c == ']' then s.flowEnd .flowSequenceEnd
  else if c == '}' then s.flowEnd .flowMappingEnd
  else if c == ',' then s.flowEntry
  else if c == '-' && k.blankAt 1 then s.blockEntry
  else if c == '?' && loose then s.explicitKey
  else if c == ':' && loose then s.colon
  else if c == '*' then s.named .alias
  else if c == '&' then s.named .anchor
  else if c == '!' then s.taggedNode
  else if c == '|' && !s.inFlow then s.block true
  else if c == '>' && !s.inFlow then s.block false
  else if c == apostrophe then s.quoted false
  else if c == '"' then s.quoted true
  else if s.startsPlain c then s.plain
  else none

/-- Every token takes at least one character, so the length of the text bounds the steps. -/
def run : Nat → Scan → Option (List Token)
  | 0, _ => none
  | fuel + 1, s => do
    let s ← (s.toNext (s.cursor.rest.length + 1)).staleMarks
    let s := s.unroll (some s.cursor.column)
    match s.cursor.rest.head? with
    | none => s.finish
    | some c =>
      let s ← s.next c
      run fuel s

end Scan

def isAllowed (c : Char) : Bool :=
  let n := c.toNat
  n == 9 || n == 10 || n == 13 || (32 ≤ n && n ≤ 126) || n == 0x85 || (0xA0 ≤ n && n < 0xFEFF) ||
    (0xFEFF < n && n ≤ 0xFFFD) || 0x10000 ≤ n

def tokens? (text : String) : Option (List Token) :=
  let cs := match text.toList with
    | c :: rest => if c.toNat == 0xFEFF then rest else c :: rest
    | [] => []
  if cs.all isAllowed then Scan.run (cs.length + 2) { cursor := .ofText cs } else none

end TypedClients.Yaml
