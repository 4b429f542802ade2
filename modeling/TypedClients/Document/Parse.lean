import TypedClients.Document.Decode
import TypedClients.Document.Swagger
import TypedClients.Json.Reader

namespace TypedClients

open Shape

inductive ParseError where
  | yaml
  | json
  | unsupportedVersion (version : String)
deriving DecidableEq, Repr

def ParseError.message? : ParseError → Option String
  | .unsupportedVersion v => some ("unsupported OpenAPI version: " ++ v)
  | _ => none

namespace Document

def checkVersion (doc : Document) : Except ParseError Document :=
  if Text.hasLead "3." doc.openapi then .ok doc
  else .error (.unsupportedVersion doc.openapi)

def ofJson (value : Json) : Except ParseError Document := do
  let value ← match Swagger.upgrade value with
    | .ok v => pure v
    | .error (.unsupportedVersion v) => throw (.unsupportedVersion v)
  match Document.read (Datum.ofJson value) with
  | some doc => checkVersion doc
  | none => throw .json

def parseJson (text : String) : Except ParseError Document :=
  match Json.read? text with
  | some value => ofJson value
  | none => .error .json

def claimsSwagger? (p : Place) : Option Bool :=
  (Source.fields? ["swagger"] [] p).map fun f =>
    (Keyed.find? "swagger" f.named).any fun v => !Source.isNone v

def parseYaml (text : String) : Except ParseError Document :=
  let read : Option (Except ParseError Document) := do
    let node ← Yaml.read? text
    let place : Place := ⟨node, Yaml.maxDepth⟩
    if ← claimsSwagger? place then
      let value ← node.json? Yaml.maxDepth
      some (ofJson value)
    else
      let doc ← Document.read place
      some (checkVersion doc)
  read.getD (.error .yaml)

end Document

def readYaml {α : Type} (read : Place → Option α) (text : String) : Option α := do
  let node ← Yaml.read? text
  read ⟨node, Yaml.maxDepth⟩

end TypedClients
