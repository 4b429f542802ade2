import TypedClients.Resolve.Arena

namespace TypedClients

/-- One entry of the mapping of a discriminator, found in the named schema `owner`. -/
structure MappingEntry where
  owner : String
  property : String
  key : String
  target : String
deriving DecidableEq, Repr

def Schema.mappingEntries (owner : String) (s : Schema) : List MappingEntry :=
  match s.discriminator with
  | some d => d.mapping.map fun (key, target) => ⟨owner, d.propertyName, key, target⟩
  | none => []

namespace Arena

def mappingEntries (arena : Arena) : List MappingEntry :=
  arena.schemas.flatMap fun (name, s) => s.inlined.flatMap (·.mappingEntries name)

/-- A mapping target is a reference or the bare name of a schema. -/
def targetName? (arena : Arena) (target : String) : Option String :=
  match Pointer.schemaName? target with
  | some n => some n
  | none => if !Text.hasChar '/' target && arena.contains target then some target else none

def mappingTarget (arena : Arena) (e : MappingEntry) : Except ResolveError (String × Schema) :=
  match (arena.targetName? e.target).filter arena.contains with
  | some n => arena.concrete n
  | none => .error (.invalidDiscriminatorTarget e.owner e.key e.target)

end Arena

def tagSchema (key : String) : SchemaRef :=
  .item { type := some (.single .string), enumValues := [.text key] }

def addTagValue (key : String) (s : Schema) : Schema :=
  if s.enumValues.any (Json.same (.text key)) then s
  else { s with enumValues := s.enumValues ++ [.text key] }

/-- The first entry for a property replaces it; later ones widen its enumeration. -/
def Schema.injectTag (s : Schema) (property key : String) (first : Bool) : Schema :=
  let tag := match first, Keyed.find? property s.properties with
    | false, some (.item p) => .item (addTagValue key p)
    | _, _ => tagSchema key
  { s with
    properties := Keyed.insert property tag s.properties
    required := if s.required.contains property then s.required else s.required ++ [property] }

structure Injection where
  arena : Arena
  written : List (String × String) := []

def Injection.add (i : Injection) (e : MappingEntry) : Except ResolveError Injection := do
  let (target, s) ← i.arena.mappingTarget e
  let first := !i.written.contains (target, e.property)
  let tagged := s.injectTag e.property e.key first
  return { arena := ⟨Keyed.insert target (.item tagged) i.arena.schemas⟩
           written := if first then i.written ++ [(target, e.property)] else i.written }

/-- A failure keeps the arena as far as it was written. -/
def Injection.addAll (i : Injection) : List MappingEntry → Except (ResolveError × Arena) Injection
  | [] => .ok i
  | e :: rest =>
    match i.add e with
    | .ok j => j.addAll rest
    | .error err => .error (err, i.arena)

def Arena.injectDiscriminators (arena : Arena) : Except (ResolveError × Arena) Injection :=
  Injection.addAll ⟨arena, []⟩ arena.mappingEntries

end TypedClients
