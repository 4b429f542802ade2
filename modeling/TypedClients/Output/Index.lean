import TypedClients.Keyed
import TypedClients.Output.Import

namespace TypedClients

structure IndexFile where
  path : String
  lines : List String
deriving DecidableEq, Repr

/-- A directory stands for the index in it. -/
def exportLine (index path : String) : String :=
  let specifier := relativeSpecifier index path
  "export * from '" ++ (Text.beforeTail? "/index" specifier).getD specifier ++ "';"

def mergedLines (existing : Option String) (lines : List String) : List String :=
  let all := (existing.map Text.lines).getD [] ++ lines
  Names.ofList ((all.map Text.trim).filter (· != ""))

def mergeIndex (existing : Option String) (lines : List String) : String :=
  Text.join "\n" (mergedLines existing lines) ++ "\n"

end TypedClients
