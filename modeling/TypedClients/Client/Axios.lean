import TypedClients.Client.Request

namespace TypedClients.Client

inductive AxiosStyle where
  | factory
  | functions
deriving DecidableEq, Repr

def answerType (r : Request) : String :=
  if r.mutator.isSome then r.successType else "AxiosResponse<" ++ r.successType ++ ">"

def callee (r : Request) : String :=
  match r.mutator with
  | some m => m ++ "<TData>"
  | none => "axios.request"

def paramsLines (r : Request) : String :=
  if r.params.isSome then
    match r.serializer? with
    | some s => "    params,\n    paramsSerializer: " ++ s ++ ",\n"
    | none => "    params: normalizedParams,\n"
  else ""

def dataLine (r : Request) : String :=
  match r.body with
  | some p => "    data: " ++ p.expression ++ ",\n"
  | none => ""

def axiosText (e : Endpoint) (target : Target) : String :=
  let r := Request.ofEndpoint e target
  Text.trimEndBlanks (
    r.commentLines ++
    "const " ++ r.name ++ " = <TData = " ++ answerType r ++ ">(" ++
      r.signature "AxiosRequestConfig" ++ "): Promise<TData> => \x7b\n" ++
    r.preludeLines ++
    (if r.params.isSome && r.serializer?.isNone then r.queryStatements ++ "\n" else "") ++
    "  return " ++ callee r ++ "(\x7b\n" ++
    "    ...options,\n" ++
    "    url: " ++ r.url ++ ",\n" ++
    "    method: '" ++ r.verb.upper ++ "',\n" ++
    r.headersLine false ++
    paramsLines r ++
    dataLine r ++
    "  \x7d);\n" ++
    "\x7d;\n")

def resultType (r : Request) (factory : Option String) : String :=
  let awaited (s : String) := "NonNullable<Awaited<ReturnType<" ++ s ++ ">>>"
  "export type " ++ r.pascal ++ "Result = " ++
    (match factory with
      | some f => awaited ("ReturnType<typeof " ++ f ++ ">['" ++ r.name ++ "']")
      | none =>
        if r.mutator.isSome then awaited ("typeof " ++ r.name)
        else "AxiosResponse<" ++ r.successType ++ ">") ++ ";"

def axiosDeferred (e : Endpoint) (target : Target) (factory : Option String) : String :=
  let r := Request.ofEndpoint e target
  Text.join "\n\n" (r.declarations ++ [resultType r factory])

end TypedClients.Client
