import TypedClients.Resolve.Arena

namespace TypedClients

def normalReference (path : String) : String :=
  match Pointer.schemaName? path with
  | some n => Pointer.ofSchema n
  | none => path

mutual

def normalRef : SchemaRef → SchemaRef
  | .ref path => .ref (normalReference path)
  | .item s => .item (normalSchema s)

def normalSchema : Schema → Schema
  | ⟨keywords, properties, additional, patterns, dependents, items, allOf, oneOf, anyOf, notSchema,
      ifSchema, thenSchema, elseSchema, definitions⟩ =>
    ⟨keywords, normalTable properties, normalAdditional additional, normalTable patterns,
      normalTable dependents, normalOption items, normalList allOf, normalList oneOf,
      normalList anyOf, normalOption notSchema, normalOption ifSchema, normalOption thenSchema,
      normalOption elseSchema, normalTable definitions⟩

def normalTable : List (String × SchemaRef) → List (String × SchemaRef)
  | [] => []
  | (name, s) :: rest => (name, normalRef s) :: normalTable rest

def normalList : List SchemaRef → List SchemaRef
  | [] => []
  | s :: rest => normalRef s :: normalList rest

def normalOption : Option SchemaRef → Option SchemaRef
  | none => none
  | some s => some (normalRef s)

def normalAdditional : Option (Additional Schema) → Option (Additional Schema)
  | none => none
  | some (.allowed b) => some (.allowed b)
  | some (.schema s) => some (.schema (normalRef s))

end

def referenceFault? (known : String → Bool) (site : String × String) : Option ResolveError :=
  match Pointer.schemaName? site.2 with
  | none => some (.invalidFormat site.2 site.1)
  | some n => if known n then none else some (.targetNotFound site.2 site.1)

/-- Accepts a schema whose references all name known schemas; otherwise reports the first bad one.
-/
def checkSchema (known : String → Bool) (location : String) (s : SchemaRef) :
    Except ResolveError SchemaRef :=
  match (s.sites location).findSome? (referenceFault? known) with
  | some e => .error e
  | none => .ok (normalRef s)

end TypedClients
