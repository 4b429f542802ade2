import TypedClients.Client.Request
import TypedClients.Generator.Backend

namespace TypedClients.Client

def responseTypeName (e : Endpoint) (v : Variant) : String :=
  e.name.camel ++ "Response" ++ (Text.afterLead? e.name.pascal v.typeName).getD v.typeName

def statusType (status : String) : String :=
  match statusCode? status with
  | some n => Decimal.digitText n
  | none => "number"

def responseDeclaration (e : Endpoint) (v : Variant) : String :=
  "export type " ++ responseTypeName e v ++
    " = \x7b\n  data: " ++ v.type.write ++ ";\n  status: " ++
    statusType v.status ++ ";\n\x7d;\n\n"

def responseUnion? (e : Endpoint) (vs : List Variant) : Option String :=
  match vs.map (responseTypeName e) with
  | [] => none
  | [n] => some n
  | ns => some ("(" ++ Text.join " | " ns ++ ")")

def withHeaders (name union : String) : String :=
  "export type " ++ name ++ " = " ++ union ++ " & \x7b\n  headers: Headers;\n\x7d;\n"

def responseTypes (e : Endpoint) (response : String) : String :=
  let success := (responseUnion? e e.response.success).getD "none"
  let failure := responseUnion? e e.response.errors
  Text.join "" (e.response.variants.map (responseDeclaration e)) ++
  withHeaders (response ++ "Success") success ++
  (failure.map (withHeaders (response ++ "Error"))).getD "" ++
  "\nexport type " ++ response ++ " = " ++ response ++ "Success" ++
  (if failure.isSome then " | " ++ response ++ "Error" else "") ++ ";\n"

def urlFunctionName (r : Request) : String := "get" ++ r.pascal ++ "Url"

def urlParameters (r : Request) : List String :=
  r.pathArguments ++
    (r.params.map fun g => "params" ++ optionalMark g.required ++ ": " ++ g.typeName).toList

def urlArguments (r : Request) : List String :=
  r.pathNames ++ (r.params.map fun _ => "params").toList

def urlBody (r : Request) : String :=
  if r.params.isSome then
    (match r.serializer? with
      | some s => "  const stringifiedParams = " ++ s ++ "(params ?? \x7b\x7d);\n"
      | none =>
        r.queryStatements ++ "  const stringifiedParams = normalizedParams.toString();\n") ++
    "\n  return stringifiedParams.length > 0 ? " ++ r.urlWithQuery ++ " : " ++ r.url ++ ";\n"
  else "  return " ++ r.url ++ ";\n"

def urlFunction (r : Request) : String :=
  "export const " ++ urlFunctionName r ++ " = (" ++ Text.join ", " (urlParameters r) ++
    ") => \x7b\n" ++ urlBody r ++ "\x7d;\n"

def urlCall (r : Request) : String :=
  urlFunctionName r ++ "(" ++ Text.join ", " (urlArguments r) ++ ")"

def fetchBodyLine (r : Request) : String :=
  match r.body with
  | some p =>
    let what := if p.format = .json then "JSON.stringify(body)" else p.expression
    "    body: " ++ what ++ ",\n"
  | none => ""

def readAnswer (r : Request) (response : String) (json : Bool) : String :=
  if r.mutator?.isSome then ""
  else
    "\n" ++
    (if json then
      "  const text = [204, 205, 304].includes(res.status) ? null : await res.text();\n" ++
      "  const data: " ++ response ++ "['data'] = text ? JSON.parse(text) : \x7b\x7d;\n"
    else "  const data = [204, 205, 304].includes(res.status) ? null : await res.text();\n") ++
    "  return \x7b data, status: res.status, headers: res.headers \x7d as " ++ response ++ ";\n"

/-- Without any content type JSON is assumed. -/
def readsJson (e : Endpoint) : Bool := e.response.successContentType.all (Text.contains "json")

def fetchFunction (r : Request) (response : String) (json : Bool) : String :=
  r.commentLines ++
  "export const " ++ r.name ++ " = async (" ++ r.signature "RequestInit" ++ "): Promise<" ++
    response ++ "> => \x7b\n" ++
  r.preludeLines ++
  (match r.mutator? with
    | some m => "  return " ++ m ++ "<" ++ response ++ ">(" ++ urlCall r ++ ", \x7b\n"
    | none => "  const res = await fetch(" ++ urlCall r ++ ", \x7b\n") ++
  "    ...options,\n" ++
  "    method: '" ++ r.verb.upper ++ "',\n" ++
  r.headersLine true ++
  fetchBodyLine r ++
  "  \x7d);\n" ++
  readAnswer r response json ++
  "\x7d;\n"

def fetchText (e : Endpoint) (target : Target) : String :=
  let r := Request.ofEndpoint e target
  let response := r.name ++ "Response"
  Text.trimEndBlanks (
    Text.join "" (r.declarations.map (· ++ "\n\n")) ++
    responseTypes e response ++ "\n" ++
    urlFunction r ++ "\n" ++
    fetchFunction r response (readsJson e))

end TypedClients.Client
