import TypedClients.Config
import TypedClients.Output.Index

namespace TypedClients.CommandLine

def dropLeads (lead : List Char) : Nat → List Char → List Char
  | 0, cs => cs
  | n + 1, cs => if lead.isPrefixOf cs then dropLeads lead n (cs.drop lead.length) else cs

def normalDirectory (path : String) : String :=
  let cs := dropLeads ['.', '/'] path.length path.toList
  let dir := String.ofList (Text.trimEnd (· == '/') cs)
  if dir = "" then "." else dir

def workspaceIndex (workspace : String) (targets : List Target) : IndexFile :=
  let index := normalDirectory workspace ++ "/index.ts"
  ⟨"index.ts", (targets.filter (·.index)).map fun t =>
    exportLine index (normalDirectory t.output ++ "/index.ts")⟩

inductive SelectError where
  | noTargets
  | notFound (name : String)
deriving DecidableEq, Repr

def SelectError.message : SelectError → String
  | .noTargets => "no targets configured. Add a \x60targets\x60 section to your config."
  | .notFound name => "no target named \x60" ++ name ++ "\x60 in the config"

def selectTargets (targets : List Target) (name : Option String) :
    Except SelectError (List Target) :=
  let selected := targets.filter fun t => name.all fun n => t.name == n
  if selected.isEmpty then .error (name.elim .noTargets .notFound) else .ok selected

end TypedClients.CommandLine
