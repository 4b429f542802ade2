import TypedClients.Generator.Backend
import TypedClients.TypeScript.Declaration

namespace TypedClients.TypeScript

def modelEntry (c : ModelContext) (name : String) (s : SchemaRef) : ModelEntry :=
  let m := Model.ofSchema name s
  { name := m.name.pascal
    path := c.path name
    declaration := declaration m
    imports := m.refs.filter (· != m.name.pascal) }

def emitter : ModelEmitter where
  id := "typescript"
  emit c name s := .ok (modelEntry c name s)
  dependencies := []
  typeOnly := true

end TypedClients.TypeScript
