import TypedClients.Generator.Registry
import TypedClients.Zod.Validate

namespace TypedClients.Zod

def zodDependency : Dependency := ⟨"zod", [{ name := "z", alias? := some "zod" }]⟩

def ValidateError.toGeneration : ValidateError → GenerationError
  | .badReference path => .unsupported ("reference " ++ path)
  | .resolve e => .resolve e

def modelComment (s : SchemaRef) : String :=
  match s.item?.bind (·.description) with
  | some d => "/** " ++ TypeScript.escapeComment (Text.replace "\n" " " d) ++ " */\n"
  | none => ""

/-- A type cannot be inferred through its own initializer, so a cyclic model has none. -/
def modelDeclaration (s : SchemaRef) (name : String) (v : Validator) : String :=
  modelComment s ++ "export const " ++ name ++
    (if v.chain.isCyclic then ": zod.ZodType<unknown>" else "") ++ " = " ++ v.expression ++
    ";\nexport type " ++ name ++ " = zod.infer<typeof " ++ name ++ ">;"

def modelScope (c : ModelContext) (name : String) : Scope where
  arena := c.arena
  options := .ofConfig c.target.zod .model
  refs := .named (some name) c.sharedFile

def modelEntry (c : ModelContext) (name : String) (s : SchemaRef) :
    Except ValidateError ModelEntry := do
  let v ← (modelScope c name).validate s (modelName name) true
  return {
    name := modelName name
    path := c.path name
    constants := v.constantLines
    declaration := modelDeclaration s (modelName name) v
    imports := v.models.filter (· != modelName name) }

def emitter : ModelEmitter where
  id := "zod"
  emit c name s := (modelEntry c name s).mapError ValidateError.toGeneration
  dependencies := [zodDependency]
  typeOnly := false

inductive Subject where
  | fields (params : List Param)
  | schema (s : SchemaRef)

structure Task where
  site : Site
  name : String
  subject : Subject

def paramsTask (site : Site) (name : String) (params : List Param) : List Task :=
  if params.isEmpty then [] else [⟨site, name, .fields params⟩]

/-- Only one of several responses can go without a distinction. -/
def responseTasks (e : Endpoint) : List Task :=
  let responses := e.response.success.filterMap fun v => v.schema.map fun s => (v, s)
  responses.map fun (v, s) =>
    let suffix := if responses.length = 1 then ""
      else (Text.afterLead? e.name.pascal v.typeName).getD v.typeName
    ⟨.response, e.name.camel ++ "Response" ++ suffix, .schema s⟩

def tasks (e : Endpoint) : List Task :=
  paramsTask .param (e.name.camel ++ "Params") e.pathParams ++
  paramsTask .query (e.name.camel ++ "QueryParams") e.queryParams ++
  paramsTask .header (e.name.camel ++ "Header") e.headers ++
  ((e.body.bind (·.schema)).map fun s => ⟨.body, e.name.camel ++ "Body", .schema s⟩).toList ++
  responseTasks e

def Task.validator (t : Task) (arena : Arena) (config : ZodConfig) (refs : RefStyle) :
    Except ValidateError Validator :=
  let g : Scope := { arena, options := .ofConfig config t.site, refs }
  match t.subject with
  | .fields params =>
    g.validateFields (params.map fun p => (p.wire, p.schema, p.required)) t.name
  | .schema s => g.validate s t.name true

/-- References are expanded unless the models are validators as well. -/
def clientRefs (kind : ModelKind) : RefStyle :=
  match kind with
  | .zod => .named none false
  | .typescript => .inline

def clientText (c : ClientContext) (e : Endpoint) : Except ValidateError ClientText := do
  let declared ← (tasks e).mapM fun t => do
    let v ← t.validator c.arena c.target.zod (clientRefs c.target.models)
    return (t.name, v)
  return {
    implementation := Text.join "\n\n" (declared.map fun (name, v) => v.declaration name)
    models := Names.ofList (declared.flatMap fun (_, v) => v.models) }

def backend : Backend where
  id := "zod"
  title := modelName
  header _ := .ok ""
  footer _ _ := .ok ""
  dependencies _ := [zodDependency]
  client c e d := ((clientText c e).mapError ValidateError.toGeneration, d)

def registerAll (r : Registry) : Registry := (r.register backend).registerEmitter emitter

end TypedClients.Zod
