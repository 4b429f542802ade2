import TypedClients.Text.Cut

namespace TypedClients.Pointer

def escapeChars : List Char → List Char
  | [] => []
  | c :: rest =>
    if c = '~' then '~' :: '0' :: escapeChars rest
    else if c = '/' then '~' :: '1' :: escapeChars rest
    else c :: escapeChars rest

/-- A tilde before any other character stands for itself. -/
def unescapeChars : List Char → List Char
  | [] => []
  | '~' :: '0' :: rest => '~' :: unescapeChars rest
  | '~' :: '1' :: rest => '/' :: unescapeChars rest
  | c :: rest => c :: unescapeChars rest

def escape (segment : String) : String := String.ofList (escapeChars segment.toList)

def unescape (segment : String) : String := String.ofList (unescapeChars segment.toList)

def schemaRoot : String := "#/components/schemas/"

def legacyRoot : String := "#/definitions/"

def ofSchema (name : String) : String := schemaRoot ++ escape name

def schemaName? (path : String) : Option String :=
  match (Text.afterLead? schemaRoot path).orElse fun _ => Text.afterLead? legacyRoot path with
  | some raw => if raw.isEmpty || Text.hasChar '/' raw then none else some (unescape raw)
  | none => none

def componentName? (kind path : String) : Option String :=
  match (Text.afterLead? "#/components/" path).bind (Text.splitOnce? '/') with
  | some (found, name) => if found = kind then some (unescape name) else none
  | none => none

end TypedClients.Pointer
