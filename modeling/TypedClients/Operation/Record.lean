import TypedClients.Config
import TypedClients.Document.Basic
import TypedClients.Name
import TypedClients.Types.TypeExpr

namespace TypedClients

namespace Verb

def upper : Verb → String
  | .get => "GET"
  | .post => "POST"
  | .put => "PUT"
  | .delete => "DELETE"
  | .patch => "PATCH"
  | .options => "OPTIONS"
  | .head => "HEAD"
  | .trace => "TRACE"

def ofText? (s : String) : Option Verb := Verb.all.find? fun v => v.name == Text.asciiLower s

def isBodyless : Verb → Bool
  | .post => false
  | .put => false
  | .patch => false
  | _ => true

end Verb

/-- A path, query or header parameter. `wire` is its name in a request. -/
structure Param where
  name : Name
  wire : String
  type : TypeExpr
  schema : Option SchemaRef
  required : Bool
  description : Option String
  deprecated : Bool
  explode : Bool

inductive BodyFormat where
  | json
  | formData
  | urlEncoded
  | text
  | binary
deriving DecidableEq, Repr

def BodyFormat.ofContentType (contentType : String) : BodyFormat :=
  let essence := Text.asciiLower (Name.essence contentType)
  if essence = "multipart/form-data" then .formData
  else if essence = "application/x-www-form-urlencoded" then .urlEncoded
  else if essence = "text/plain" then .text
  else if essence = "application/octet-stream" then .binary
  else .json

def isJsonType (contentType : String) : Bool :=
  let essence := Name.essence contentType
  Text.hasTail "+json" essence || Text.hasTail "/json" essence

structure Body where
  type : TypeExpr
  schema : Option SchemaRef
  required : Bool
  contentType : String
  format : BodyFormat
  description : Option String

/-- One response: a status with one of its content types, which is empty when it has no content. -/
structure Variant where
  status : String
  contentType : String
  type : TypeExpr
  typeName : String
  schema : Option SchemaRef
  description : Option String

structure Responses where
  success : List Variant := []
  errors : List Variant := []

namespace Responses

def variants (r : Responses) : List Variant := r.success ++ r.errors

def successType (r : Responses) : TypeExpr :=
  TypeExpr.ofMembers .void
    (TypeExpr.distinct ((r.success.map (·.type)).filter fun t => !t.isVoid))

def successContentType (r : Responses) : Option String :=
  (r.success.map (·.contentType)).find? (· != "")

end Responses

inductive ArgumentKind where
  | pathParam
  | body
  | params
  | headers
deriving DecidableEq, Repr

structure Argument where
  name : String
  kind : ArgumentKind
  type : TypeExpr
  required : Bool

structure Endpoint where
  name : Name
  operationId : Option String
  verb : Verb
  route : String
  summary : Option String
  description : Option String
  tags : List String
  deprecated : Bool
  arguments : List Argument
  pathParams : List Param
  queryParams : List Param
  headers : List Param
  body : Option Body
  response : Responses
  mutator : Option Mutator

namespace Endpoint

def location (e : Endpoint) : String := e.verb.upper ++ " " ++ e.route

def params (e : Endpoint) : List Param := e.pathParams ++ e.queryParams ++ e.headers

def schemaRoots (e : Endpoint) : List SchemaRef :=
  e.params.filterMap (·.schema) ++ (e.body.bind (·.schema)).toList ++
    e.response.variants.filterMap (·.schema)

def modelRefs (e : Endpoint) : List String :=
  Names.ofList ((e.params.flatMap fun p => p.type.refs) ++
    (e.body.map fun b => b.type.refs).getD [] ++
    e.response.variants.flatMap fun v => v.type.refs)

end Endpoint

end TypedClients
