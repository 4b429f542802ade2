import TypedClients.Yaml.Cursor

namespace TypedClients.Yaml

/-- Blanks and line breaks between two parts of a text. A single line break becomes a blank, more of
them lose the first. -/
structure Gap where
  blanks : List Char := []
  firstBreak : List Char := []
  moreBreaks : List Char := []
  broken : Bool := false

def Gap.text (g : Gap) : List Char :=
  if g.broken then
    if g.firstBreak = ['\n'] then
      if g.moreBreaks.isEmpty then [' '] else g.moreBreaks
    else g.firstBreak ++ g.moreBreaks
  else g.blanks

/-- Reads blanks and line breaks. `indent` is the column before which a tab may not stand. -/
def readGap (indent : Option Nat) : Nat → Gap → Cursor → Option (Gap × Cursor)
  | 0, g, k => some (g, k)
  | fuel + 1, g, k =>
    match k.rest with
    | [] => some (g, k)
    | c :: _ =>
      if isSpaceOrTab c then
        if g.broken && c == '\t' && indent.any (k.column < ·) then none
        else readGap indent fuel (if g.broken then g else { g with blanks := g.blanks ++ [c] })
          (k.skip 1)
      else if isBreak c then
        let g :=
          if g.broken then { g with moreBreaks := g.moreBreaks ++ k.breakText }
          else { g with blanks := [], firstBreak := k.breakText, broken := true }
        readGap indent fuel g k.skipBreak
      else some (g, k)

def hexDigit? (c : Char) : Option Nat :=
  if c.isDigit then some (c.toNat - 48)
  else if 97 ≤ c.toNat ∧ c.toNat ≤ 102 then some (c.toNat - 87)
  else if 65 ≤ c.toNat ∧ c.toNat ≤ 70 then some (c.toNat - 55)
  else none

def hexNumber? (cs : List Char) : Option Nat :=
  cs.foldlM (fun acc c => (hexDigit? c).map fun d => acc * 16 + d) 0

def escapes : List (Char × Nat) :=
  [('0', 0), ('a', 7), ('b', 8), ('t', 9), ('\t', 9), ('n', 10), ('v', 11), ('f', 12), ('r', 13),
   ('e', 27), (' ', 32), ('"', 34), ('/', 47), ('\\', 92), ('N', 0x85), ('_', 0xA0), ('L', 0x2028),
   ('P', 0x2029)]

def codeEscapes : List (Char × Nat) := [('x', 2), ('u', 4), ('U', 8)]

def escaped? (rest : List Char) : Option (Char × Nat) :=
  match rest with
  | [] => none
  | c :: rest =>
    match escapes.lookup c, codeEscapes.lookup c with
    | some code, _ => some (Char.ofNat code, 1)
    | none, some size =>
      let digits := rest.take size
      if digits.length = size then
        match hexNumber? digits with
        | some code =>
          if code.isValidChar then some (Char.ofNat code, size + 1) else none
        | none => none
      else none
    | none, none => none

def apostrophe : Char := Char.ofNat 39

def readQuoted (double : Bool) : Nat → List Char → Cursor → Option (List Char × Cursor)
  | 0, _, _ => none
  | fuel + 1, acc, k =>
    if k.atDocumentMark '-' || k.atDocumentMark '.' then none
    else match k.rest with
      | [] => none
      | c :: rest =>
        if isSpaceOrTab c || isBreak c then
          match readGap none k.rest.length {} k with
          | some (g, k) => readQuoted double fuel (g.text.reverse ++ acc) k
          | none => none
        else if double then
          if c == '"' then some (acc.reverse, k.skip 1)
          else if c == '\\' then
            if rest.head?.any isBreak then
              match readGap none k.rest.length { broken := true } (k.skip 1).skipBreak with
              | some (g, k) => readQuoted double fuel (g.text.reverse ++ acc) k
              | none => none
            else match escaped? rest with
              | some (e, size) => readQuoted double fuel (e :: acc) (k.skip (size + 1))
              | none => none
          else readQuoted double fuel (c :: acc) (k.skip 1)
        else if c == apostrophe then
          if rest.head? == some apostrophe then
            readQuoted double fuel (apostrophe :: acc) (k.skip 2)
          else some (acc.reverse, k.skip 1)
        else readQuoted double fuel (c :: acc) (k.skip 1)

def isFlowMark (c : Char) : Bool := c == ',' || c == '[' || c == ']' || c == '{' || c == '}'

/-- The characters of a plain text up to the next blank or closing mark; none when a colon runs into
a mark of the surrounding collection. -/
def plainRun (inFlow : Bool) : List Char → Option (List Char)
  | [] => some []
  | c :: rest =>
    if isSpaceOrTab c || isBreak c then some []
    else if c == ':' && rest.head?.all fun d => isSpaceOrTab d || isBreak d then some []
    else if inFlow && c == ':' && rest.head?.any (fun d => isFlowMark d || d == '?') then none
    else if inFlow && isFlowMark c then some []
    else (plainRun inFlow rest).map (c :: ·)

/-- A plain text may continue on lines that are indented beyond `indent`. The answer tells whether
it ended behind a line break. -/
def readPlain (inFlow : Bool) (indent : Nat) :
    Nat → List Char → Gap → Cursor → Option (List Char × Bool × Cursor)
  | 0, _, _, _ => none
  | fuel + 1, acc, gap, k =>
    if k.atDocumentMark '-' || k.atDocumentMark '.' || k.is '#' then
      some (acc.reverse, gap.broken, k)
    else match plainRun inFlow k.rest with
      | none => none
      | some [] => some (acc.reverse, gap.broken, k)
      | some run =>
        let acc := run.reverse ++ gap.text.reverse ++ acc
        let k := k.skip run.length
        if k.atSpaceOrTab || k.atBreak then
          match readGap (some indent) k.rest.length {} k with
          | none => none
          | some (gap, k) =>
            if !inFlow && k.column < indent then some (acc.reverse, gap.broken, k)
            else readPlain inFlow indent fuel acc gap k
        else some (acc.reverse, false, k)

inductive Chomping where
  | strip
  | clip
  | keep
deriving DecidableEq

def blockHeader? (k : Cursor) : Option (Chomping × Option Nat × Cursor) :=
  let chomp (c : Char) : Option Chomping :=
    if c == '+' then some .keep else if c == '-' then some .strip else none
  let digit (c : Char) : Option Nat := if c.isDigit then some (c.toNat - 48) else none
  let valid (d : Option Nat) : Bool := d != some 0
  match k.rest with
  | [] => some (.clip, none, k)
  | a :: rest =>
    match chomp a, digit a with
    | some ch, _ =>
      match rest.head?.bind digit with
      | some d => if valid (some d) then some (ch, some d, k.skip 2) else none
      | none => some (ch, none, k.skip 1)
    | none, some d =>
      if !valid (some d) then none
      else match rest.head?.bind chomp with
        | some ch => some (ch, some d, k.skip 2)
        | none => some (.clip, some d, k.skip 1)
    | none, none => some (.clip, none, k)

/-- Reads the empty lines before the next line of a block. Answers the breaks and the widest
indentation seen. -/
def readBlockBreaks (indent : Option Nat) :
    Nat → Nat → List Char → Cursor → Option (Nat × List Char × Cursor)
  | 0, widest, breaks, k => some (widest, breaks, k)
  | fuel + 1, widest, breaks, k =>
    let spaces := (k.takeWhile (· == ' ')).length
    let n := match indent with
      | some i => min spaces (i - k.column)
      | none => spaces
    let k := k.skip n
    let widest := max widest k.column
    if k.is '\t' && indent.all (k.column < ·) then none
    else if k.atBreak then readBlockBreaks indent fuel widest (breaks ++ k.breakText) k.skipBreak
    else some (widest, breaks, k)

structure BlockState where
  text : List Char := []
  leadingBreak : List Char := []
  trailingBreaks : List Char := []
  leadingBlank : Bool := false

/-- The lines of a block. A folded block joins two lines by a blank unless one of them begins with a
blank. -/
def readBlockLines (literal : Bool) (indent : Nat) :
    Nat → BlockState → Cursor → Option (BlockState × Cursor)
  | 0, s, k => some (s, k)
  | fuel + 1, s, k =>
    if k.column != indent || k.atEnd then some (s, k)
    else
      let blank := k.atSpaceOrTab
      let joint :=
        if !literal && s.leadingBreak == ['\n'] && !s.leadingBlank && !blank then
          if s.trailingBreaks.isEmpty then [' '] else []
        else s.leadingBreak
      let line := k.takeWhile fun c => !isBreak c
      let k := k.skip line.length
      let leadingBreak := k.breakText
      match readBlockBreaks (some indent) k.rest.length 0 [] k.skipBreak with
      | none => none
      | some (_, breaks, k) =>
        readBlockLines literal indent fuel
          ⟨s.text ++ joint ++ s.trailingBreaks ++ line, leadingBreak, breaks, blank⟩ k

def readBlock (literal : Bool) (parent : Option Nat) (k : Cursor) :
    Option (List Char × Cursor) := do
  let (chomping, increment, k) ← blockHeader? k
  let k := k.skipWhile isSpaceOrTab
  let k := if k.is '#' then k.skipWhile fun c => !isBreak c else k
  if !(k.atEnd || k.atBreak) then none
  else
    let k := if k.atBreak then k.skipBreak else k
    let least := match parent with
      | some p => p + 1
      | none => 0
    let given := increment.map fun i => (parent.getD 0) + i
    let (widest, breaks, k) ← readBlockBreaks given k.rest.length 0 [] k
    let indent := given.getD (max (max widest least) 1)
    let (s, k) ← readBlockLines literal indent (k.rest.length + 1) { trailingBreaks := breaks } k
    let text := match chomping with
      | .strip => s.text
      | .clip => s.text ++ s.leadingBreak
      | .keep => s.text ++ s.leadingBreak ++ s.trailingBreaks
    some (text, k)

end TypedClients.Yaml
