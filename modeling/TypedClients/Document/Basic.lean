import TypedClients.Document.Schema

namespace TypedClients

inductive ParameterLocation where
  | path
  | query
  | header
  | cookie
deriving DecidableEq, Repr

structure Parameter where
  name : String
  location : ParameterLocation
  description : Option String := none
  required : Bool := false
  deprecated : Bool := false
  schema : Option SchemaRef := none
  explode : Option Bool := none

namespace Parameter

def key (p : Parameter) : String × ParameterLocation := (p.name, p.location)

/-- A path cannot be written without its parameters. -/
def isRequired (p : Parameter) : Bool := p.required || p.location == .path

def explodes (p : Parameter) (otherwise : Bool) : Bool := p.explode == some true || otherwise

end Parameter

structure MediaType where
  schema : Option SchemaRef := none

structure RequestBody where
  description : Option String := none
  content : List (String × MediaType)
  required : Bool := false

structure Response where
  description : String := ""
  content : List (String × MediaType) := []

structure Operation where
  operationId : Option String := none
  summary : Option String := none
  description : Option String := none
  tags : List String := []
  parameters : List (Referenced Parameter) := []
  requestBody : Option (Referenced RequestBody) := none
  responses : List (String × Referenced Response) := []
  deprecated : Bool := false

inductive Verb where
  | get
  | post
  | put
  | delete
  | patch
  | options
  | head
  | trace
deriving DecidableEq, Repr

namespace Verb

def all : List Verb := [.get, .post, .put, .delete, .patch, .options, .head, .trace]

def name : Verb → String
  | .get => "get"
  | .post => "post"
  | .put => "put"
  | .delete => "delete"
  | .patch => "patch"
  | .options => "options"
  | .head => "head"
  | .trace => "trace"

end Verb

/-- `operations` follows the order of `Verb.all`. -/
structure PathItem where
  parameters : List (Referenced Parameter) := []
  operations : List (Verb × Operation) := []

structure Components where
  schemas : List (String × SchemaRef) := []
  parameters : List (String × Referenced Parameter) := []
  requestBodies : List (String × Referenced RequestBody) := []
  responses : List (String × Referenced Response) := []

structure Info where
  title : String
  version : String
  description : Option String := none

structure Document where
  openapi : String
  info : Info
  paths : List (String × PathItem) := []
  components : Option Components := none
  definitions : List (String × SchemaRef) := []

end TypedClients
