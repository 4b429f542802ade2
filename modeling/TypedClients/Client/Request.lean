import TypedClients.Operation.Responses
import TypedClients.TypeScript.Text

namespace TypedClients.Client

open TypeScript (escapeComment propertyKey)

structure ParamGroup where
  typeName : String
  required : Bool
deriving DecidableEq, Repr

structure Payload where
  contentType : String
  format : BodyFormat
  required : Bool
deriving DecidableEq, Repr

structure Request where
  name : String
  pascal : String
  verb : Verb
  comment : Option String
  /-- Without the last argument, which holds the options. -/
  arguments : List String
  /-- The route as a template literal with the base address in front. -/
  url : String
  pathArguments : List String
  pathNames : List String
  params : Option ParamGroup
  headers : Option ParamGroup
  body : Option Payload
  /-- The query parameters that repeat once for every item. -/
  explodeList : Option String
  paramsSerializer : Option String
  mutator : Option String
  successType : String
  declarations : List String

def formDataPrelude : String :=
  "  const formData = new FormData();\n" ++
  "  Object.entries(body ?? \x7b\x7d).forEach(([key, value]) => \x7b\n" ++
  "    if (value !== undefined) \x7b\n" ++
  "      formData.append(key, value instanceof Blob ? value : String(value));\n" ++
  "    \x7d\n" ++
  "  \x7d);"

def urlEncodedPrelude : String :=
  "  const formUrlEncoded = new URLSearchParams();\n" ++
  "  Object.entries(body ?? \x7b\x7d).forEach(([key, value]) => \x7b\n" ++
  "    if (value !== undefined) \x7b\n" ++
  "      formUrlEncoded.append(key, String(value));\n" ++
  "    \x7d\n" ++
  "  \x7d);"

namespace Payload

def prelude? (p : Payload) : Option String :=
  match p.format with
  | .formData => some formDataPrelude
  | .urlEncoded => some urlEncodedPrelude
  | _ => none

def expression (p : Payload) : String :=
  match p.format with
  | .formData => "formData"
  | .urlEncoded => "formUrlEncoded"
  | _ => "body"

def statesType (p : Payload) (json : Bool) : Bool :=
  match p.format with
  | .formData => false
  | .json => json
  | _ => true

end Payload

def optionalMark (required : Bool) : String := if required then "" else "?"

def flattened (s : String) : String := escapeComment (Text.replace "\n" " " s)

def paramNotes (p : Param) : List String :=
  (p.description.map flattened).toList ++ if p.deprecated then ["@deprecated"] else []

def paramLine (p : Param) : String :=
  (if (paramNotes p).isEmpty then "" else "  /** " ++ Text.join " " (paramNotes p) ++ " */\n") ++
    "  " ++ propertyKey p.wire ++ optionalMark p.required ++ ": " ++ p.type.write ++ ";\n"

def paramsDeclaration (name : String) (params : List Param) : String :=
  "export type " ++ name ++ " = \x7b\n" ++ Text.join "" (params.map paramLine) ++ "\x7d;"

def placeholderName (params : List Param) (placeholder : String) : String :=
  match params.find? fun p => p.wire == placeholder with
  | some p => p.name.camel
  | none => (Name.ofText placeholder).camel

/-- Replaces placeholders. Inside one, its characters so far are kept in reverse; one that is never
closed is left as it stands. -/
def routeChars (params : List Param) : Option (List Char) → List Char → List Char
  | none, [] => []
  | some name, [] => '{' :: name.reverse
  | none, c :: rest =>
    if c = '{' then routeChars params (some []) rest else c :: routeChars params none rest
  | some name, c :: rest =>
    if c = '}' then
      '$' :: '{' :: (placeholderName params (String.ofList name.reverse)).toList ++
        '}' :: routeChars params none rest
    else routeChars params (some (c :: name)) rest

def urlText (e : Endpoint) (base : Option String) : String :=
  let base := (base.map fun b => Text.trimEnd (· == '/') b.toList).getD []
  String.ofList (base ++ routeChars e.pathParams none e.route.toList)

def template (s : String) : String := "\x60" ++ s ++ "\x60"

def commentLine (line : String) : String := if line = "" then " *" else " * " ++ line

def comment? (e : Endpoint) : Option String :=
  let texts := e.summary.toList ++ e.description.toList
  let lines := (texts.flatMap Text.lines).map fun l => escapeComment (Text.trimEndBlanks l)
  let lines := lines ++ if e.deprecated then ["@deprecated"] else []
  if lines.isEmpty then none
  else some ("/**\n" ++ Text.join "\n" (lines.map commentLine) ++ "\n */")

def paramGroup? (typeName : String) (params : List Param) : Option ParamGroup :=
  if params.isEmpty then none else some ⟨typeName, params.any (·.required)⟩

def argumentText (e : Endpoint) (a : Argument) : String :=
  let type := match a.kind with
    | .params => e.name.pascal ++ "Params"
    | .headers => e.name.pascal ++ "Headers"
    | _ => a.type.write
  a.name ++ optionalMark a.required ++ ": " ++ type

namespace Request

def ofEndpoint (e : Endpoint) (target : Target) : Request :=
  let params := paramGroup? (e.name.pascal ++ "Params") e.queryParams
  let headers := paramGroup? (e.name.pascal ++ "Headers") e.headers
  let exploded := e.queryParams.filter (·.explode)
  { name := e.name.camel
    pascal := e.name.pascal
    verb := e.verb
    comment := comment? e
    arguments := e.arguments.map (argumentText e)
    url := template (urlText e target.baseUrl)
    pathArguments := e.pathParams.map fun p => p.name.camel ++ ": " ++ p.type.write
    pathNames := e.pathParams.map (·.name.camel)
    params
    headers
    body := e.body.map fun b => ⟨b.contentType, b.format, b.required⟩
    explodeList := if exploded.isEmpty then none
      else some (Text.join ", " (exploded.map fun p => "'" ++ p.wire ++ "'"))
    paramsSerializer := target.paramsSerializer.map (·.name)
    mutator := e.mutator.map (·.name)
    successType := e.response.successType.write
    declarations :=
      (params.map fun g => paramsDeclaration g.typeName e.queryParams).toList ++
      (headers.map fun g => paramsDeclaration g.typeName e.headers).toList }

def urlWithQuery (r : Request) : String :=
  (Text.beforeTail? "\x60" r.url).getD r.url ++ "?$\x7bstringifiedParams\x7d\x60"

def signature (r : Request) (optionsType : String) : String :=
  Text.join ", " (r.arguments ++ ["options?: " ++ optionsType])

/-- The operation's headers and the caller's in one object. With `json` a JSON body states its
type as well. -/
def headersExpression? (r : Request) (json : Bool) : Option String :=
  let stated := match r.body with
    | some p => if p.statesType json then ["'Content-Type': '" ++ p.contentType ++ "'"] else []
    | none => []
  let parts := stated ++ if r.headers.isSome then ["...headers"] else []
  if parts.isEmpty then none
  else some ("\x7b " ++ Text.join ", " (parts ++ ["...options?.headers"]) ++ " \x7d")

/-- An empty name counts as none. -/
def serializer? (r : Request) : Option String := r.paramsSerializer.filter (· != "")

def mutator? (r : Request) : Option String := r.mutator.filter (· != "")

def queryStatements (r : Request) : String :=
  "  const normalizedParams = new URLSearchParams();\n" ++
  (match r.explodeList with
    | some l => "  const explodeParameters = [" ++ l ++ "];\n"
    | none => "") ++
  "  Object.entries(params || \x7b\x7d).forEach(([key, value]) => \x7b\n" ++
  "    if (value === undefined) \x7b\n" ++
  "      return;\n" ++
  "    \x7d\n" ++
  (match r.explodeList with
    | some _ =>
      "    if (Array.isArray(value) && explodeParameters.includes(key)) \x7b\n" ++
      "      value.forEach((v) => " ++
      "normalizedParams.append(key, v === null ? 'null' : String(v)));\n" ++
      "      return;\n" ++
      "    \x7d\n"
    | none => "") ++
  "    normalizedParams.append(key, value === null ? 'null' : String(value));\n" ++
  "  \x7d);\n"

def commentLines (r : Request) : String := (r.comment.map (· ++ "\n")).getD ""

def preludeLines (r : Request) : String :=
  match r.body.bind Payload.prelude? with
  | some p => p ++ "\n\n"
  | none => ""

def headersLine (r : Request) (json : Bool) : String :=
  match r.headersExpression? json with
  | some h => "    headers: " ++ h ++ ",\n"
  | none => ""

end Request

end TypedClients.Client
