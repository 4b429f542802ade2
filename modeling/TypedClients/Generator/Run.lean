import TypedClients.Generator.Registry
import TypedClients.Operation.Build
import TypedClients.Output.Index
import TypedClients.Output.Page
import TypedClients.Resolve.Reachable

namespace TypedClients

inductive RunError where
  | generation (e : GenerationError)
  | resolve (e : ResolveError)
  | build (e : BuildError)
  | collision (c : Collision)

def RunError.message : RunError → String
  | .generation e => e.message
  | .resolve e => "resolve error: " ++ e.message
  | .build e => e.message
  | .collision c => c.message

/-- What a target has produced. A unit or model that failed has left an error and no file. -/
structure Report where
  target : String
  files : List GeneratedFile
  indexes : List IndexFile
  errors : List GenerationError
  operations : Nat
  models : Nat

def emitModels (emitter : ModelEmitter) (c : ModelContext) :
    List String → List ModelEntry × List GenerationError
  | [] => ([], [])
  | name :: rest =>
    let (entries, errors) := emitModels emitter c rest
    match c.arena.find? name with
    | none => (entries, errors)
    | some s =>
      match emitter.emit c name s with
      | .ok entry => (entry :: entries, errors)
      | .error e => (entries, .unit name e :: errors)

/-- The operations of one unit in order, up to the first that fails. -/
def clientTexts (b : Backend) (c : ClientContext) :
    List Endpoint → Deferred → Except GenerationError (List ClientText) × Deferred
  | [], d => (.ok [], d)
  | e :: rest, d =>
    match b.client c e d with
    | (.error err, d) => (.error (.operation e.name.camel err), d)
    | (.ok t, d) =>
      match clientTexts b c rest d with
      | (.ok ts, d) => (.ok (t :: ts), d)
      | (.error err, d) => (.error err, d)

structure RunState where
  resolved : Resolved
  target : Target
  emitter : ModelEmitter
  modelFiles : List ModelFile
  units : List OutputUnit

def sameFile (a b : String) : Bool := Text.lower a == Text.lower b

namespace RunState

def info (r : RunState) : Info := r.resolved.document.info

def banner (r : RunState) : String := TypedClients.banner r.info.title r.info.version

def locations (r : RunState) : List (String × String) := locate r.modelFiles

def modelImports (r : RunState) (f : ModelFile) : List Dependency :=
  r.emitter.dependencies ++ f.dependencies r.locations r.emitter.typeOnly

def isEmbedded (r : RunState) (f : ModelFile) : Bool := r.units.any fun u => sameFile u.path f.path

def modelPage (r : RunState) (f : ModelFile) : GeneratedFile :=
  ⟨f.path,
    writePage r.banner ((mergeDependencies (r.modelImports f)).map Dependency.write) [f.body]⟩

def modelPages (r : RunState) : List GeneratedFile :=
  (r.modelFiles.filter fun f => !r.isEmbedded f).map r.modelPage

def embedded? (r : RunState) (u : OutputUnit) : Option ModelFile :=
  r.modelFiles.find? fun f => sameFile u.path f.path

def dependencyOptions (r : RunState) (endpoints : List Endpoint) : DependencyOptions where
  mutators := (endpoints.filterMap (·.mutator)).foldl
    (fun acc m => if acc.contains m then acc else acc ++ [m]) []
  paramsSerializer := r.target.paramsSerializer
  hasQueryParams := endpoints.any fun e => !e.queryParams.isEmpty
  zodVersion := r.target.zod.version

/-- Models in the unit's own file need no import. -/
def clientImports (r : RunState) (u : OutputUnit) (models : List String) : List Dependency :=
  modelDependencies u.path r.emitter.typeOnly
    ((located r.locations (Names.ofList models)).filter fun (_, path) =>
      !Text.equalIgnoringCase path u.path)

def unitImports (r : RunState) (b : Backend) (u : OutputUnit) (endpoints : List Endpoint)
    (texts : List ClientText) : List Dependency :=
  let dependencies := b.dependencies (r.dependencyOptions endpoints) ++
    ((r.embedded? u).map r.modelImports).getD [] ++ r.clientImports u (texts.flatMap (·.models))
  (mergeDependencies dependencies).filter fun d => !d.bindings.isEmpty

def unitPage (r : RunState) (b : Backend) (u : OutputUnit) (endpoints : List Endpoint)
    (header : String) (texts : List ClientText) (footer : String) : GeneratedFile :=
  ⟨u.path, writePage r.banner ((r.unitImports b u endpoints texts).map Dependency.write)
    (((r.embedded? u).map ModelFile.body).toList ++
      header :: texts.map (·.implementation) ++ [footer])⟩

def renderUnit (r : RunState) (b : Backend) (u : OutputUnit) (endpoints : List Endpoint)
    (d : Deferred) : Except GenerationError GeneratedFile × Deferred :=
  let c : UnitContext := ⟨u, b.title u.name, endpoints, r.target, r.info⟩
  match b.header c with
  | .error e => (.error e, d)
  | .ok header =>
    match clientTexts b ⟨u.name, r.target, r.resolved.arena⟩ endpoints d with
    | (.error e, d) => (.error e, d)
    | (.ok texts, d) =>
      match b.footer c d with
      | .error e => (.error e, d)
      | .ok footer => (.ok (r.unitPage b u endpoints header texts footer), d)

/-- Every unit with its file or error. What a unit has put off is dropped when it ends. -/
def renderUnits (r : RunState) (b : Backend) (endpoints : List Endpoint) :
    List OutputUnit → Deferred → List (OutputUnit × Except GenerationError GeneratedFile)
  | [], _ => []
  | u :: rest, d =>
    let own := u.endpoints endpoints
    let (result, d) := r.renderUnit b u own d
    (u, result) :: renderUnits r b endpoints rest (d.clear (own.map (·.name.camel)))

def modelIndex : String := "model/index.ts"

def planIndexes (r : RunState) (written : List OutputUnit) : List IndexFile :=
  let unitLines := written.map fun u => exportLine "index.ts" u.path
  if r.target.mode.splitsModels then
    if r.modelFiles.isEmpty then [⟨"index.ts", unitLines⟩]
    else [⟨modelIndex, r.modelFiles.map fun f => exportLine modelIndex f.path⟩,
      ⟨"index.ts", unitLines ++ [exportLine "index.ts" modelIndex]⟩]
  else
    [⟨"index.ts", unitLines ++ (r.modelFiles.filter fun f => !r.isEmbedded f).map
      fun f => exportLine "index.ts" f.path⟩]

end RunState

def okUnit? :
    OutputUnit × Except GenerationError GeneratedFile → Option (OutputUnit × GeneratedFile)
  | (u, .ok f) => some (u, f)
  | (_, .error _) => none

def failedUnit? : OutputUnit × Except GenerationError GeneratedFile → Option GenerationError
  | (_, .ok _) => none
  | (u, .error e) => some (.unit u.name e)

def Target.fileStem (t : Target) (title : String) : String :=
  t.fileName.getD (Name.ofText title).camel

def generate (b : Backend) (emitter : ModelEmitter) (resolved : Resolved) (target : Target)
    (endpoints : List Endpoint) (units : List OutputUnit) (fileStem : String) : Report :=
  let reachable := resolved.arena.reachable (endpoints.flatMap Endpoint.schemaRoots)
  let (entries, modelErrors) := emitModels emitter ⟨resolved.arena, target, fileStem⟩ reachable
  let state : RunState := ⟨resolved, target, emitter, ModelFile.assemble entries, units⟩
  let results := state.renderUnits b endpoints units {}
  let written := results.filterMap okUnit?
  { target := target.name
    files := state.modelPages ++ written.map Prod.snd
    indexes := if target.index then state.planIndexes (written.map Prod.fst) else []
    errors := modelErrors ++ results.filterMap failedUnit?
    operations := endpoints.length
    models := entries.length }

def Registry.run (registry : Registry) (doc : Document) (target : Target) :
    Except RunError Report := do
  let b ← (registry.backend target.client).mapError .generation
  let emitter ← (registry.emitter target.models.id).mapError .generation
  let resolved ← doc.resolve.mapError .resolve
  let endpoints ← (buildEndpoints resolved target).mapError .build
  let fileStem := target.fileStem resolved.document.info.title
  let units := planUnits endpoints target.mode resolved.document.info.title fileStem
  match units.findSome? fun u => u.collision? endpoints with
  | some c => throw (.collision c)
  | none => return generate b emitter resolved target endpoints units fileStem

end TypedClients
