import TypedClients.Resolve.Arena

namespace TypedClients

def targetReference? (target : String) : Option String :=
  match Pointer.schemaName? target with
  | some n => some n
  | none => if Text.hasChar '/' target then none else some target

def SchemaRef.refName? : SchemaRef → Option String
  | .ref path => Pointer.schemaName? path
  | .item _ => none

def Schema.directRefs (s : Schema) : List String :=
  s.subschemas.filterMap SchemaRef.refName? ++
    match s.discriminator with
    | some d => d.mapping.filterMap fun (_, target) => targetReference? target
    | none => []

def SchemaRef.mentioned : SchemaRef → List String
  | .ref path => (Pointer.schemaName? path).toList
  | r => r.inlined.flatMap Schema.directRefs

namespace Arena

/-- Each step takes a discovered name from the entries that remain, so cycles end. -/
def gather (remaining : List (String × SchemaRef)) (pending : List String) : List String :=
  match pending with
  | [] => []
  | name :: pending =>
    match _h : Keyed.find? name remaining with
    | none => gather remaining pending
    | some s => name :: gather (Keyed.erase name remaining) (pending ++ s.mentioned)
termination_by (remaining.length, pending.length)
decreasing_by
  · exact Prod.Lex.right _ (by simp)
  · exact Prod.Lex.left _ _ (Keyed.length_erase_lt _h)

/-- The names that lead on from some schemas, in increasing order. -/
def reachable (arena : Arena) (roots : List SchemaRef) : List String :=
  Names.ofList (gather arena.schemas (roots.flatMap SchemaRef.mentioned))

/-- What a named schema leads to; itself only when it lies on a cycle. -/
def reachableFrom (arena : Arena) (name : String) : List String :=
  match arena.find? name with
  | some s => arena.reachable [s]
  | none => []

end Arena

end TypedClients
