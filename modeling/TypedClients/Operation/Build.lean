import TypedClients.Operation.Responses
import TypedClients.Resolve.Resolved

namespace TypedClients

def placeholder? (segment : String) : Option String :=
  (Text.afterLead? "\x7b" segment).bind (Text.beforeTail? "\x7d")

def placeholders (route : String) : List String := (Text.splitAt '/' route).filterMap placeholder?

/-- A parameter that comes again keeps its first place and takes its last declaration. -/
def insertParameter (p : Parameter) : List Parameter → List Parameter
  | [] => [p]
  | q :: rest => if q.key = p.key then p :: rest else q :: insertParameter p rest

def mergeParameters (shared own : List (Referenced Parameter)) : List Parameter :=
  ((shared ++ own).filterMap Referenced.item?).foldl (fun acc p => insertParameter p acc) []

def RequestBody.preferredContent? (b : RequestBody) : Option (String × MediaType) :=
  (b.content.find? fun (t, _) => t == "application/json").orElse fun _ =>
    (b.content.find? fun (t, _) => isJsonType t).orElse fun _ => b.content.head?

namespace Arena

def isArray (arena : Arena) (s : SchemaRef) : Bool :=
  match arena.deref [] s with
  | .ok (.schema _ s) => s.isArray
  | _ => false

end Arena

def Param.ofParameter (arena : Arena) (explode : Bool) (p : Parameter) : Param where
  name := Name.ofText p.name
  wire := p.name
  type := schemaType p.schema
  schema := p.schema
  required := p.isRequired
  description := p.description
  deprecated := p.deprecated
  explode := p.schema.any arena.isArray && explode

def Param.undeclared (name : String) : Param where
  name := Name.ofText name
  wire := name
  type := .string
  schema := none
  required := true
  description := none
  deprecated := false
  explode := false

def addPlaceholder (params : List Param) (name : String) : List Param :=
  if params.any fun p => p.wire == name then params else params ++ [.undeclared name]

/-- In the order of the route; parameters that it does not mention come last. -/
def orderPathParams (route : String) (params : List Param) : List Param :=
  let names := placeholders route
  (names.foldl addPlaceholder params).mergeSort fun p q => names.idxOf p.wire ≤ names.idxOf q.wire

def paramsType (params : List Param) : TypeExpr :=
  .object (params.map fun p => (p.wire, p.type, p.required))

def groupArgument (name : String) (kind : ArgumentKind) (params : List Param) : List Argument :=
  if params.isEmpty then []
  else [{ name, kind, type := paramsType params, required := params.any (·.required) }]

/-- Optional arguments come behind the required ones. -/
def buildArguments (pathParams : List Param) (body : Option Body)
    (queryParams headers : List Param) :
    List Argument :=
  let all :=
    pathParams.map (fun p => Argument.mk p.name.camel .pathParam p.type true) ++
    (body.map fun b => Argument.mk "body" .body b.type b.required).toList ++
    groupArgument "params" .params queryParams ++ groupArgument "headers" .headers headers
  all.filter (·.required) ++ all.filter fun a => !a.required

inductive BuildError where
  | unresolvedBody (location reference : String)
deriving DecidableEq, Repr

def BuildError.message : BuildError → String
  | .unresolvedBody l r =>
    "invalid operation at " ++ l ++ ": unresolved request body reference " ++ r

def buildBody (location : String) (b : Option (Referenced RequestBody)) :
    Except BuildError (Option Body) :=
  match b with
  | none => .ok none
  | some (.ref path) => .error (.unresolvedBody location path)
  | some (.item b) => .ok (b.preferredContent?.map fun (contentType, media) => {
      type := schemaType media.schema
      schema := media.schema
      required := b.required
      contentType
      format := .ofContentType contentType
      description := b.description })

def rawName (target : Target) (verb : Verb) (route : String) (op : Operation) : String :=
  match target.naming.strategy, op.operationId with
  | .useOperationId, some id => id
  | _, _ => Name.ofRoute verb.upper route

def Endpoint.build (arena : Arena) (target : Target) (route : String)
    (shared : List (Referenced Parameter)) (verb : Verb) (op : Operation) :
    Except BuildError Endpoint := do
  let raw := rawName target verb route op
  let name := Name.ofText ((Keyed.find? raw target.naming.aliases).getD raw)
  let overrides := target.overrides.resolve (op.operationId.getD raw) op.tags
  let explode := overrides.explodeArrays.getD target.explodeArrays
  let params := mergeParameters shared op.parameters
  let located (l : ParameterLocation) := params.filter fun p => p.location == l
  let pathParams := orderPathParams route ((located .path).map (.ofParameter arena false))
  let queryParams := (located .query).map fun p => Param.ofParameter arena (p.explodes explode) p
  let headers := (located .header).map (.ofParameter arena false)
  let body ← buildBody (verb.upper ++ " " ++ route) op.requestBody
  return {
    name
    operationId := op.operationId
    verb
    route
    summary := op.summary
    description := op.description
    tags := op.tags
    deprecated := op.deprecated
    arguments := buildArguments pathParams body queryParams headers
    pathParams
    queryParams
    headers
    body
    response := Responses.build name.camel op.responses
    mutator := overrides.mutator.orElse fun _ => target.mutator }

def selectedOperations (target : Target) (paths : List (String × PathItem)) :
    List (String × PathItem × Verb × Operation) :=
  paths.flatMap fun (route, item) =>
    (item.operations.filter fun (_, op) => target.filters.selects op.tags).map fun (verb, op) =>
      (route, item, verb, op)

def buildEndpoints (resolved : Resolved) (target : Target) : Except BuildError (List Endpoint) :=
  (selectedOperations target resolved.document.paths).mapM fun (route, item, verb, op) =>
    Endpoint.build resolved.arena target route item.parameters verb op

end TypedClients
