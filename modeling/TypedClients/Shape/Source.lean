import TypedClients.Yaml.Scalar

namespace TypedClients.Shape

/-- The fields of a record, found by name or by place. By place a missing field is an error unless
it has a default. -/
structure Fields (σ : Type) where
  named : List (String × σ)
  byPlace : Bool

class Source (σ : Type) where
  text? : σ → Option String
  bool? : σ → Option Bool
  isNone : σ → Bool
  items? : σ → Option (List σ)
  entries? : σ → Option (List (String × σ))
  /-- The known fields among `names`. A name may have an alias; a known field may not repeat. -/
  fields? : (names : List String) → (aliases : List (String × String)) → σ → Option (Fields σ)
  constant? : (names : List String) → σ → Option String
  datum? : σ → Option Datum

def distinctFields? {σ : Type} (known : List (Option (String × σ))) : Option (List (String × σ)) :=
  known.foldlM (fun acc f =>
    match f with
    | none => some acc
    | some (name, v) => if Keyed.contains name acc then none else some (acc ++ [(name, v)])) []

def canonical? (names : List String) (aliases : List (String × String)) (key : String) :
    Option String :=
  if names.contains key then some key else Keyed.find? key aliases

def fieldOfKey? (names : List String) (aliases : List (String × String)) :
    Datum → Option (Option String)
  | .text key => some (canonical? names aliases key)
  | .number (.int i) => if 0 ≤ i then some names[i.toNat]? else none
  | _ => none

def datumFields? (names : List String) (aliases : List (String × String)) :
    Datum → Option (Fields Datum)
  | .record entries => do
    let known ← entries.mapM fun (key, value) =>
      (fieldOfKey? names aliases key).map fun name => name.map fun n => (n, value)
    let named ← distinctFields? known
    some ⟨named, false⟩
  | .list items =>
    if items.length ≤ names.length then some ⟨names.zip items, true⟩ else none
  | _ => none

def Datum.entries? : Datum → Option (List (String × Datum))
  | .record entries => entries.mapM fun (key, value) =>
    match key with
    | .text k => some (k, value)
    | _ => none
  | _ => none

/-- The name of a constant: a text, or a record of one field that holds nothing. -/
def constantName? (names : List String) : Datum → Option String
  | .text s => if names.contains s then some s else none
  | .record [(key, .null)] =>
    match fieldOfKey? names [] key with
    | some name => name
    | none => none
  | _ => none

instance : Source Datum where
  text? | .text s => some s
        | _ => none
  bool? | .bool b => some b
        | _ => none
  isNone | .null => true
         | _ => false
  items? | .list items => some items
         | _ => none
  entries? := Datum.entries?
  fields? := datumFields?
  constant? := constantName?
  datum? := some

/-- A node of a YAML document read where the type wanted is known: a scalar is its source text. -/
structure Place where
  node : Yaml.Node
  depth : Nat

namespace Place

def isEmptyScalar : Yaml.Node → Bool
  | .scalar s => s.text == "" && s.plain
  | .absent => true
  | _ => false

def entries? (p : Place) : Option (List (String × Place)) :=
  match p.node, p.depth with
  | .mapping _ entries, depth + 1 => entries.mapM fun (key, value) =>
    match key with
    | .scalar s => some (s.text, ⟨value, depth⟩)
    | _ => none
  | n, _ => if isEmptyScalar n then some [] else none

instance : Source Place where
  text? p := match p.node with
    | .scalar s => some s.text
    | _ => none
  bool? p := match p.node with
    | .scalar s => if s.plain then Yaml.boolText? s.text else none
    | _ => none
  isNone p := match p.node with
    | .scalar s => s.plain && s.isNull
    | .absent => true
    | _ => false
  items? p := match p.node, p.depth with
    | .sequence _ items, depth + 1 => some (items.map fun n => ⟨n, depth⟩)
    | n, _ => if isEmptyScalar n then some [] else none
  entries? := entries?
  fields? names aliases p := do
    let entries ← p.entries?
    let named ← distinctFields? (entries.map fun (key, value) =>
      (canonical? names aliases key).map fun name => (name, value))
    some ⟨named, false⟩
  constant? names p := match p.node with
    | .scalar s => if names.contains s.text then some s.text else none
    | _ => none
  datum? p := p.node.datum? p.depth

end Place

section

variable {σ α : Type} [Source σ]

def Fields.required (f : Fields σ) (name : String) (read : σ → Option α) : Option α :=
  match Keyed.find? name f.named with
  | some v => read v
  | none => none

def Fields.optional (f : Fields σ) (name : String) (read : σ → Option α) : Option (Option α) :=
  match Keyed.find? name f.named with
  | some v => if Source.isNone v then some none else (read v).map some
  | none => if f.byPlace then none else some none

def Fields.withDefault (f : Fields σ) (name : String) (read : σ → Option α) (default : α) :
    Option α :=
  match Keyed.find? name f.named with
  | some v => read v
  | none => some default

def Fields.lenient (f : Fields σ) : Fields σ := { f with byPlace := false }

def listOf (read : σ → Option α) (v : σ) : Option (List α) := do
  let items ← Source.items? v
  items.mapM read

/-- A repeated key keeps its first place and its last value. -/
def tableOf (read : σ → Option α) (v : σ) : Option (List (String × α)) := do
  let entries ← Source.entries? v
  let pairs ← entries.mapM fun (key, value) => (read value).map fun a => (key, a)
  some (Keyed.ofList pairs)

def text (v : σ) : Option String := Source.text? v

def bool (v : σ) : Option Bool := Source.bool? v

end

end TypedClients.Shape
