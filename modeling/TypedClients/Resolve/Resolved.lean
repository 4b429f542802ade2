import TypedClients.Resolve.Check
import TypedClients.Resolve.Discriminator

namespace TypedClients

/-- A document without component references, and the named schemas that its schema references point
into. -/
structure Resolved where
  document : Document
  arena : Arena

structure ComponentTable (α : Type) where
  kind : String
  entries : List (String × Referenced α)

namespace ComponentTable

variable {α : Type}

/-- Follows a chain of references. It has gone in a circle when a path comes up again, or when
another spelling leads to an entry that was passed before. -/
def followFrom (table : ComponentTable α) (location : String) (seen : List String)
    (unvisited : List (String × Referenced α)) : Referenced α → Except ResolveError α
  | .item a => .ok a
  | .ref path =>
    if seen.contains path then .error (.circularAlias path)
    else match Pointer.componentName? table.kind path with
      | none => .error (.invalidFormat path location)
      | some n =>
        match Keyed.find? n table.entries, _h : Keyed.find? n unvisited with
        | none, _ => .error (.targetNotFound path location)
        | some (.item a), none => .ok a
        | some (.ref again), none => .error (.circularAlias again)
        | some _, some next =>
          followFrom table location (path :: seen) (Keyed.erase n unvisited) next
termination_by unvisited.length
decreasing_by exact Keyed.length_erase_lt _h

def follow (table : ComponentTable α) (location : String) (r : Referenced α) :
    Except ResolveError α :=
  table.followFrom location [] table.entries r

end ComponentTable

namespace Document

def parameterTable (doc : Document) : ComponentTable Parameter :=
  ⟨"parameters", (doc.components.map (·.parameters)).getD []⟩

def requestBodyTable (doc : Document) : ComponentTable RequestBody :=
  ⟨"requestBodies", (doc.components.map (·.requestBodies)).getD []⟩

def responseTable (doc : Document) : ComponentTable Response :=
  ⟨"responses", (doc.components.map (·.responses)).getD []⟩

def componentSchemas (doc : Document) : List (String × SchemaRef) :=
  (doc.components.map (·.schemas)).getD []

/-- Every schema that a reference may name; a component shadows a definition of its name. -/
def declaredSchemas (doc : Document) : List (String × SchemaRef) :=
  Keyed.insertAll doc.definitions doc.componentSchemas

def declares (doc : Document) (name : String) : Bool :=
  Keyed.contains name doc.definitions || Keyed.contains name doc.componentSchemas

def checkOption (doc : Document) (location : String) (s : Option SchemaRef) :
    Except ResolveError (Option SchemaRef) :=
  match s with
  | none => .ok none
  | some s => (checkSchema doc.declares (location ++ "/schema") s).map some

def resolveParameter (doc : Document) (location : String) (p : Referenced Parameter) :
    Except ResolveError Parameter := do
  let p ← doc.parameterTable.follow location p
  let schema ← doc.checkOption location p.schema
  return { p with schema }

def resolveParameters (doc : Document) (location : String) (ps : List (Referenced Parameter)) :
    Except ResolveError (List (Referenced Parameter)) :=
  ps.zipIdx.mapM fun (p, i) =>
    (doc.resolveParameter (location ++ "/" ++ Decimal.digitText i) p).map .item

def resolveContent (doc : Document) (location : String) (content : List (String × MediaType)) :
    Except ResolveError (List (String × MediaType)) :=
  content.mapM fun (type, media) => do
    let schema ← doc.checkOption (location ++ "/content/" ++ Pointer.escape type) media.schema
    return (type, { media with schema })

def resolveRequestBody (doc : Document) (location : String) (b : Referenced RequestBody) :
    Except ResolveError RequestBody := do
  let b ← doc.requestBodyTable.follow location b
  let content ← doc.resolveContent location b.content
  return { b with content }

def resolveOptionalBody (doc : Document) (location : String) :
    Option (Referenced RequestBody) → Except ResolveError (Option (Referenced RequestBody))
  | some b => (doc.resolveRequestBody location b).map fun b => some (.item b)
  | none => .ok none

def resolveResponse (doc : Document) (location : String) (r : Referenced Response) :
    Except ResolveError Response := do
  let r ← doc.responseTable.follow location r
  let content ← doc.resolveContent location r.content
  return { r with content }

def resolveOperation (doc : Document) (location : String) (op : Operation) :
    Except ResolveError Operation := do
  let parameters ← doc.resolveParameters (location ++ "/parameters") op.parameters
  let requestBody ← doc.resolveOptionalBody (location ++ "/requestBody") op.requestBody
  let responses ← op.responses.mapM fun (status, r) => do
    let r ← doc.resolveResponse (location ++ "/responses/" ++ Pointer.escape status) r
    return (status, Referenced.item r)
  return { op with parameters, requestBody, responses }

def resolvePathItem (doc : Document) (location : String) (item : PathItem) :
    Except ResolveError PathItem := do
  let parameters ← doc.resolveParameters (location ++ "/parameters") item.parameters
  let operations ← item.operations.mapM fun (verb, op) => do
    let op ← doc.resolveOperation (location ++ "/" ++ verb.name) op
    return (verb, op)
  return { parameters, operations }

def resolvePaths (doc : Document) : Except ResolveError (List (String × PathItem)) :=
  doc.paths.mapM fun (path, item) => do
    let item ← doc.resolvePathItem ("#/paths/" ++ Pointer.escape path) item
    return (path, item)

def resolveSchemas (doc : Document) : Except ResolveError Arena := do
  let schemas ← doc.declaredSchemas.mapM fun (name, s) => do
    let s ← checkSchema doc.declares (Pointer.ofSchema name) s
    return (name, s)
  return ⟨schemas⟩

/-- Inlines components into the paths, checks every schema reference, rejects names that never reach
a schema, and writes discriminator values into the schemas they select. -/
def resolve (doc : Document) : Except ResolveError Resolved := do
  let paths ← doc.resolvePaths
  let arena ← doc.resolveSchemas
  arena.names.forM fun n => (arena.concrete n).map fun _ => ()
  let injection ← arena.injectDiscriminators.mapError Prod.fst
  return {
    document := { doc with paths, components := doc.components.map fun _ => {}, definitions := [] }
    arena := injection.arena }

end Document

end TypedClients
