import TypedClients.Yaml.Token
import TypedClients.Keyed

namespace TypedClients.Yaml

structure Scalar where
  text : String
  plain : Bool
  tag : Option String := none
deriving DecidableEq, Repr

inductive Node where
  | scalar (value : Scalar)
  | sequence (tag : Option String) (items : List Node)
  | mapping (tag : Option String) (entries : List (Node × Node))
  /-- An alias inside the node that it names. -/
  | recursive
  | absent
deriving Repr, Inhabited

def Node.empty : Node := .scalar ⟨"", true, none⟩

structure Reading where
  tokens : List Token
  anchors : List (String × Node) := []
  handles : List (String × String) := []

namespace Reading

def advance (r : Reading) : Reading := { r with tokens := r.tokens.tail }

def peekIs (r : Reading) (ts : List Token) : Bool := r.tokens.head?.any ts.contains

def take? (r : Reading) (t : Token) : Option Reading :=
  if r.peekIs [t] then some r.advance else none

def name (r : Reading) (anchor : Option String) (node : Node) : Reading :=
  match anchor with
  | some a => { r with anchors := Keyed.insert a node r.anchors }
  | none => r

/-- Gives a finished collection to its anchor, unless the anchor was used anew inside it. -/
def finishName (r : Reading) (anchor : Option String) (node : Node) : Reading :=
  match anchor.map fun a => Keyed.find? a r.anchors with
  | some (some .recursive) => r.name anchor node
  | _ => r

def resolveTag (r : Reading) (handle suffix : String) : Option String :=
  if handle == "" then some suffix
  else match Keyed.find? handle r.handles with
    | some uri => some (uri ++ suffix)
    | none =>
      if handle == "!" then some ("!" ++ suffix)
      else if handle == "!!" then some ("tag:yaml.org,2002:" ++ suffix)
      else none

def properties? (r : Reading) : Option (Option String × Option String × Reading) :=
  match r.tokens with
  | .anchor a :: .tag h s :: rest =>
    (r.resolveTag h s).map fun t => (some a, some t, { r with tokens := rest })
  | .tag h s :: .anchor a :: rest =>
    (r.resolveTag h s).map fun t => (some a, some t, { r with tokens := rest })
  | .anchor a :: rest => some (some a, none, { r with tokens := rest })
  | .tag h s :: rest => (r.resolveTag h s).map fun t => (none, some t, { r with tokens := rest })
  | _ => some (none, none, r)

end Reading

mutual

/-- A node; `block` admits block collections, `indentless` a sequence at its parent's column. -/
def node (block indentless : Bool) : Nat → Reading → Option (Node × Reading)
  | 0, _ => none
  | fuel + 1, r =>
    match r.tokens with
    | .alias a :: _ => (Keyed.find? a r.anchors).map fun n => (n, r.advance)
    | _ => do
      let (anchor, tag, r) ← r.properties?
      let opened := r.name anchor .recursive
      let finish (n : Node) (r : Reading) : Node × Reading := (n, r.finishName anchor n)
      match r.tokens with
      | .scalar text plain :: _ =>
        let n := Node.scalar ⟨text, plain, if tag == some "!" then none else tag⟩
        some (n, r.advance.name anchor n)
      | .flowSequenceStart :: _ =>
        let (items, r) ← flowItems true fuel opened.advance
        some (finish (.sequence tag items) r)
      | .flowMappingStart :: _ =>
        let (entries, r) ← flowEntries true fuel opened.advance
        some (finish (.mapping tag entries) r)
      | t :: _ =>
        if indentless && t == .blockEntry then do
          let (items, r) ← blockItems true fuel opened
          some (finish (.sequence tag items) r)
        else if block && t == .blockSequenceStart then do
          let (items, r) ← blockItems false fuel opened.advance
          some (finish (.sequence tag items) r)
        else if block && t == .blockMappingStart then do
          let (entries, r) ← blockEntries fuel opened.advance
          some (finish (.mapping tag entries) r)
        else if anchor.isSome || tag.isSome then
          let n := Node.scalar ⟨"", true, tag⟩
          some (n, r.name anchor n)
        else none
      | [] =>
        if anchor.isSome || tag.isSome then
          let n := Node.scalar ⟨"", true, tag⟩
          some (n, r.name anchor n)
        else none

def nodeUnless (ends : List Token) (block indentless : Bool) :
    Nat → Reading → Option (Node × Reading)
  | 0, _ => none
  | fuel + 1, r => if r.peekIs ends then some (.empty, r) else node block indentless fuel r

def blockItems (indentless : Bool) : Nat → Reading → Option (List Node × Reading)
  | 0, _ => none
  | fuel + 1, r =>
    match r.take? .blockEntry with
    | some r => do
      let ends :=
        if indentless then [.blockEntry, .key, .value, .blockEnd] else [.blockEntry, .blockEnd]
      let (item, r) ← nodeUnless ends true false fuel r
      let (items, r) ← blockItems indentless fuel r
      some (item :: items, r)
    | none => if indentless then some ([], r) else (r.take? .blockEnd).map fun r => ([], r)

def blockEntries : Nat → Reading → Option (List (Node × Node) × Reading)
  | 0, _ => none
  | fuel + 1, r =>
    match r.take? .key with
    | some r => do
      let (key, r) ← nodeUnless [.key, .value, .blockEnd] true true fuel r
      let (value, r) ← match r.take? .value with
        | some r => nodeUnless [.key, .value, .blockEnd] true true fuel r
        | none => some (.empty, r)
      let (entries, r) ← blockEntries fuel r
      some ((key, value) :: entries, r)
    | none => (r.take? .blockEnd).map fun r => ([], r)

def flowItems (first : Bool) : Nat → Reading → Option (List Node × Reading)
  | 0, _ => none
  | fuel + 1, r =>
    match r.take? .flowSequenceEnd with
    | some r => some ([], r)
    | none => do
      let r ← if first then some r else r.take? .flowEntry
      match r.take? .flowSequenceEnd, r.take? .key with
      | some r, _ => if first then none else some ([], r)
      | none, some r =>
        let (key, r) ← nodeUnless [.value, .flowEntry, .flowSequenceEnd] false false fuel r
        let (value, r) ← match r.take? .value with
          | some r => nodeUnless [.flowEntry, .flowSequenceEnd] false false fuel r
          | none => some (.empty, r)
        let (items, r) ← flowItems false fuel r
        some (.mapping none [(key, value)] :: items, r)
      | none, none =>
        let (item, r) ← node false false fuel r
        let (items, r) ← flowItems false fuel r
        some (item :: items, r)

def flowEntries (first : Bool) : Nat → Reading → Option (List (Node × Node) × Reading)
  | 0, _ => none
  | fuel + 1, r =>
    match r.take? .flowMappingEnd with
    | some r => some ([], r)
    | none => do
      let r ← if first then some r else r.take? .flowEntry
      match r.take? .flowMappingEnd, r.take? .key with
      | some r, _ => if first then none else some ([], r)
      | none, some r =>
        let (key, r) ← nodeUnless [.value, .flowEntry, .flowMappingEnd] false false fuel r
        let (value, r) ← match r.take? .value with
          | some r => nodeUnless [.flowEntry, .flowMappingEnd] false false fuel r
          | none => some (.empty, r)
        let (entries, r) ← flowEntries false fuel r
        some ((key, value) :: entries, r)
      | none, none =>
        let (key, r) ← node false false fuel r
        let (entries, r) ← flowEntries false fuel r
        some ((key, .empty) :: entries, r)

end

def directives : List (String × String) → List Token → List (String × String) × List Token × Bool
  | handles, .versionDirective :: rest =>
    let (handles, rest, _) := directives handles rest
    (handles, rest, true)
  | handles, .tagDirective h uri :: rest =>
    let (handles, rest, _) := directives (Keyed.insert h uri handles) rest
    (handles, rest, true)
  | handles, rest => (handles, rest, false)

def read? (text : String) : Option Node := do
  let tokens ← tokens? text
  let (handles, rest, directed) := directives [] tokens
  let r : Reading := { tokens := rest, handles }
  let (marked, r) ← match r.take? .documentStart with
    | some r => some (true, r)
    | none => if directed then none else some (false, r)
  if tokens.isEmpty then some .absent
  else do
    let (n, r) ←
      if marked && (r.tokens.isEmpty || r.peekIs [.documentStart, .documentEnd]) then
        some (Node.empty, r)
      else node true false (4 * tokens.length + 4) r
    if r.tokens.all (· == .documentEnd) then some n else none

end TypedClients.Yaml
