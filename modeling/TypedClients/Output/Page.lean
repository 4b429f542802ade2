import TypedClients.Text.Cut

namespace TypedClients

structure GeneratedFile where
  path : String
  content : String
deriving DecidableEq, Repr

def banner (title version : String) : String :=
  "/**\n * Generated by apigen. Do not edit.\n * " ++ title ++ " (version " ++ version ++ ")\n */"

/-- The banner, the imports and the sections with an empty line between them; empty sections are
left out. -/
def writePage (banner : String) (imports sections : List String) : String :=
  let top := if imports.isEmpty then [] else [Text.join "\n" imports]
  let body := (sections.map Text.trimEndBlanks).filter (· != "")
  Text.join "\n\n" (banner :: top ++ body) ++ "\n"

end TypedClients
