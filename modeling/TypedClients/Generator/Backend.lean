import TypedClients.Generator.Deferred
import TypedClients.Operation.Unit
import TypedClients.Output.ModelFile
import TypedClients.Resolve.Arena

namespace TypedClients

inductive GenerationError where
  | unknownBackend (id : String)
  | unsupported (what : String)
  | resolve (e : ResolveError)
  | operation (name : String) (cause : GenerationError)
  | unit (name : String) (cause : GenerationError)
deriving Repr

def GenerationError.message : GenerationError → String
  | .unknownBackend id => "unknown backend \x60" ++ id ++ "\x60"
  | .unsupported what => "unsupported: " ++ what
  | .resolve e => e.message
  | .operation name cause => "operation \x60" ++ name ++ "\x60: " ++ cause.message
  | .unit name cause => "output unit \x60" ++ name ++ "\x60: " ++ cause.message

structure DependencyOptions where
  mutators : List Mutator := []
  paramsSerializer : Option Mutator := none
  hasQueryParams : Bool := false
  zodVersion : Option String := none

structure UnitContext where
  unit : OutputUnit
  title : String
  endpoints : List Endpoint
  target : Target
  info : Info

def UnitContext.operationNames (c : UnitContext) : List String := c.endpoints.map (·.name.camel)

structure ClientContext where
  unit : String
  target : Target
  arena : Arena

structure ClientText where
  implementation : String
  models : List String

/-- A way of writing clients. A unit is a header, the text of each operation, and a footer, which
may use what the operations have put off. -/
structure Backend where
  id : String
  title : String → String
  header : UnitContext → Except GenerationError String
  footer : UnitContext → Deferred → Except GenerationError String
  dependencies : DependencyOptions → List Dependency
  client : ClientContext → Endpoint → Deferred → Except GenerationError ClientText × Deferred

structure ModelContext where
  arena : Arena
  target : Target
  fileStem : String

namespace ModelContext

def path (c : ModelContext) (name : String) : String := modelPath c.target.mode c.fileStem name

def sharedFile (c : ModelContext) : Bool := !c.target.mode.splitsModels

end ModelContext

structure ModelEmitter where
  id : String
  emit : ModelContext → String → SchemaRef → Except GenerationError ModelEntry
  dependencies : List Dependency
  typeOnly : Bool

end TypedClients
