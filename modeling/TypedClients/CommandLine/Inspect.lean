import TypedClients.Operation.Build
import TypedClients.Resolve.Reachable
import TypedClients.TypeScript.Text
import TypedClients.Types.Model

namespace TypedClients.CommandLine

def modelKindName : ModelBody → String
  | .object _ _ => "object"
  | .enumeration _ _ => "enum"
  | .union _ _ => "union"
  | .alias _ => "alias"

def operationSummary (e : Endpoint) : Json :=
  .ofPairs [("name", .text e.name.camel), ("method", .text e.verb.upper), ("path", .text e.route),
    ("tags", .array (e.tags.map .text)), ("props", .array (e.arguments.map fun a => .text a.name)),
    ("success", .text e.response.successType.write)]

def schemaSummary (name : String) (s : SchemaRef) : Json :=
  let m := Model.ofSchema name s
  .ofPairs [("name", .text m.name.pascal), ("kind", .text (modelKindName m.body))]

inductive InspectError where
  | resolve (e : ResolveError)
  | build (e : BuildError)
deriving DecidableEq, Repr

def InspectError.message : InspectError → String
  | .resolve e => e.message
  | .build e => e.message

def summary (doc : Document) : Except InspectError Json := do
  let resolved ← doc.resolve.mapError .resolve
  let endpoints ← (buildEndpoints resolved {}).mapError .build
  let reachable := resolved.arena.reachable (endpoints.flatMap Endpoint.schemaRoots)
  let schemas := reachable.filterMap fun n => (resolved.arena.find? n).map (schemaSummary n)
  return .ofPairs [
    ("info", .ofPairs [("title", .text resolved.document.info.title),
      ("version", .text resolved.document.info.version)]),
    ("operations", .array (endpoints.map operationSummary)),
    ("schemas", .array schemas),
    ("unreachable", .nat (resolved.arena.schemas.length - schemas.length))]

end TypedClients.CommandLine
