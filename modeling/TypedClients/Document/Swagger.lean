import TypedClients.Json.Printer
import TypedClients.Text.Cut

namespace TypedClients.Swagger

open Text (afterLead?)

abbrev Fields := List (String × Json)

inductive UpgradeError where
  | unsupportedVersion (version : String)
deriving DecidableEq, Repr

def defaultMediaType : String := "application/json"

def verbs : List String := ["get", "put", "post", "delete", "options", "head", "patch", "trace"]

def schemaKeywords : List String :=
  ["type", "format", "items", "enum", "default", "minimum", "maximum", "exclusiveMinimum",
   "exclusiveMaximum", "minLength", "maxLength", "pattern", "minItems", "maxItems", "uniqueItems",
   "multipleOf"]

def isSwagger (doc : Json) : Bool := (doc.field? "swagger").isSome

def location? (param : Json) : Option String := (param.field? "in").bind Json.text?

def parameterName? (param : Json) : Option String :=
  ((param.field? "$ref").bind Json.text?).bind (afterLead? "#/parameters/")

/-- A body or form parameter, given in place or by the name of a shared one. -/
def isRequestParameter (bodies : List String) (param : Json) : Bool :=
  location? param == some "body" || location? param == some "formData" ||
    (parameterName? param).any bodies.contains

def mediaTypes (value : Option Json) : List String :=
  let types := ((value.bind Json.items?).getD []).filterMap Json.text?
  if types.isEmpty then [defaultMediaType] else types

def content (schema : Option Json) (types : List String) : Json :=
  let entry := match schema with
    | some s => Json.ofPairs [("schema", s)]
    | none => .object []
  Json.ofPairs (types.map fun t => (t, entry))

def requestBody (consumes : List String) (param : Json) : Json :=
  let kept := ["description", "required"].filterMap fun k => (param.field? k).map fun v => (k, v)
  Json.ofPairs (kept ++ [("content", content (param.field? "schema") consumes)])

def takeSchema (param : Fields) : Fields × Fields :=
  (param.filter fun (k, _) => schemaKeywords.contains k,
   param.filter fun (k, _) => !schemaKeywords.contains k)

def typeOf? (fields : Fields) : Option String := (Keyed.find? "type" fields).bind Json.text?

def parameter : Json → Json
  | .object param =>
    if Keyed.contains "$ref" param then .object param
    else
      let multi := (Keyed.find? "collectionFormat" param).bind Json.text? == some "multi"
      let (schema, rest) := takeSchema (Keyed.erase "collectionFormat" param)
      let rest :=
        if typeOf? schema == some "array" then Keyed.insertSorted "explode" (.bool multi) rest
        else rest
      .object (Keyed.insertSorted "schema" (.object schema) (Keyed.erase "allowEmptyValue" rest))
  | other => other

def formField? : Json → Option (String × Bool × Json)
  | .object param =>
    match Keyed.find? "name" param with
    | some (.text name) =>
      let required := match Keyed.find? "required" param with
        | some (.bool b) => b
        | _ => false
      let (schema, rest) := takeSchema (Keyed.erase "name" param)
      let schema := match Keyed.find? "description" rest with
        | some d => Keyed.insertSorted "description" d schema
        | none => schema
      some (name, required, .object schema)
    | _ => none
  | _ => none

def formBody (consumes : List String) (params : List Json) : Json :=
  let mediaType :=
    if consumes.contains "multipart/form-data" then "multipart/form-data"
    else "application/x-www-form-urlencoded"
  let fields := params.filterMap formField?
  let required := fields.filterMap fun (name, r, _) => if r then some (Json.text name) else none
  let properties := Json.ofPairs (fields.map fun (name, _, schema) => (name, schema))
  let schema := [("type", .text "object"), ("properties", properties)] ++
    (if required.isEmpty then [] else [("required", .array required)])
  Json.ofPairs [("required", .bool !required.isEmpty),
    ("content", content (some (Json.ofPairs schema)) [mediaType])]

def response (produces : List String) : Json → Json
  | .object fields =>
    let fields := match Keyed.find? "schema" fields with
      | some schema =>
        Keyed.insertSorted "content" (content (some schema) produces) (Keyed.erase "schema" fields)
      | none => fields
    .object (Keyed.erase "examples" fields)
  | other => other

structure Sorted where
  plain : List Json := []
  form : List Json := []
  body : Option Json := none

def Sorted.add (bodies consumes : List String) (s : Sorted) (param : Json) : Sorted :=
  match (parameterName? param).filter bodies.contains with
  | some name =>
    { s with body := some (Json.ofPairs [("$ref", .text ("#/components/requestBodies/" ++ name))]) }
  | none =>
    if location? param == some "body" then { s with body := some (requestBody consumes param) }
    else if location? param == some "formData" then { s with form := s.form ++ [param] }
    else { s with plain := s.plain ++ [parameter param] }

/-- The last body parameter wins; form fields count only without one. -/
def Sorted.requestBody? (consumes : List String) (s : Sorted) : Option Json :=
  match s.body with
  | some b => some b
  | none => if s.form.isEmpty then none else some (formBody consumes s.form)

def setSome (key : String) (value : Option Json) (fields : Fields) : Fields :=
  match value with
  | some v => Keyed.insertSorted key v fields
  | none => fields

def setItems (key : String) (items : List Json) (fields : Fields) : Fields :=
  if items.isEmpty then fields else Keyed.insertSorted key (.array items) fields

def mapObject (f : Json → Json) : Json → Json
  | .object fields => .object (Keyed.mapValues f fields)
  | other => other

def updateField (key : String) (f : Json → Json) (fields : Fields) : Fields :=
  fields.map fun (k, v) => (k, if k = key then f v else v)

def ownTypes (key : String) (op : Fields) (inherited : List String) : List String :=
  match Keyed.find? key op with
  | some v => mediaTypes (some v)
  | none => inherited

def operation (consumes produces bodies : List String) (shared : List Json) (op : Fields) :
    Fields :=
  let consumes := ownTypes "consumes" op consumes
  let produces := ownTypes "produces" op produces
  let own := ((Keyed.find? "parameters" op).bind Json.items?).getD []
  let op := Keyed.erase "parameters" (Keyed.erase "produces" (Keyed.erase "consumes" op))
  let sorted := (shared ++ own).foldl (Sorted.add bodies consumes) {}
  let op := setItems "parameters" sorted.plain
    (setSome "requestBody" (sorted.requestBody? consumes) op)
  updateField "responses" (mapObject (response produces)) op

/-- Body and form parameters of a path go to each of its operations. -/
def pathItem (consumes produces bodies : List String) : Json → Json
  | .object item =>
    let shared := ((Keyed.find? "parameters" item).bind Json.items?).getD []
    let request := shared.filter (isRequestParameter bodies)
    let plain := shared.filter fun p => !isRequestParameter bodies p
    let item := setItems "parameters" (plain.map parameter) (Keyed.erase "parameters" item)
    .object (item.map fun (k, v) =>
      (k, match v with
        | .object op =>
          if verbs.contains k then .object (operation consumes produces bodies request op)
          else .object op
        | other => other))
  | other => other

def referencePlaces : List (String × String) :=
  [("#/definitions/", "#/components/schemas/"), ("#/parameters/", "#/components/parameters/"),
   ("#/responses/", "#/components/responses/")]

def movedReference (target : String) : String :=
  (referencePlaces.findSome? fun (old, new) => (afterLead? old target).map (new ++ ·)).getD target

def moveReference : Json → Json
  | .text target => .text (movedReference target)
  | other => other

def renameKeywords (fields : Fields) : Fields :=
  let fields := updateField "$ref" moveReference fields
  let fields := match Keyed.find? "x-nullable" fields with
    | some v => Keyed.insertSorted "nullable" v (Keyed.erase "x-nullable" fields)
    | none => fields
  if typeOf? fields == some "file" then
    Keyed.insertSorted "format" (.text "binary") (Keyed.insertSorted "type" (.text "string") fields)
  else fields

mutual

def modern : Json → Json
  | .object fields => .object (renameKeywords (modernFields fields))
  | .array items => .array (modernItems items)
  | other => other

def modernItems : List Json → List Json
  | [] => []
  | item :: rest => modern item :: modernItems rest

def modernFields : Fields → Fields
  | [] => []
  | (key, value) :: rest => (key, modern value) :: modernFields rest

end

def versionText : Json → String
  | .text s => s
  | other => other.compact

def textVersion (info : Json) : Json :=
  match info with
  | .object fields => .object (updateField "version" (fun
      | .number n => .text n.write
      | other => other) fields)
  | other => other

/-- The shared parameters: those that describe a body, and the others. -/
def sharedParameters (root : Fields) : Option (Fields × Fields) :=
  match Keyed.find? "parameters" root with
  | some (.object params) =>
    some (params.filter (fun (_, p) => location? p == some "body"),
      params.filter fun (_, p) => location? p != some "body")
  | _ => none

def components (consumes produces : List String) (root : Fields) : Fields :=
  let schemas := (Keyed.find? "definitions" root).map fun d => ("schemas", d)
  let shared := (sharedParameters root).map fun (bodies, plain) =>
    [("parameters", .object (Keyed.mapValues parameter plain)),
     ("requestBodies", .object (Keyed.mapValues (requestBody consumes) bodies))]
  let responses := match Keyed.find? "responses" root with
    | some (.object rs) => [("responses", .object (Keyed.mapValues (response produces) rs))]
    | _ => []
  schemas.toList ++ shared.getD [] ++ responses

def moved : List String :=
  ["consumes", "produces", "definitions", "parameters", "responses", "swagger"]

/-- A document that names no version of its own is left alone. -/
def upgrade (doc : Json) : Except UpgradeError Json :=
  match doc with
  | .object root =>
    match Keyed.find? "swagger" root with
    | none => .ok doc
    | some version =>
      if (afterLead? "2." (versionText version)).isNone then
        .error (.unsupportedVersion (versionText version))
      else
        let consumes := mediaTypes (Keyed.find? "consumes" root)
        let produces := mediaTypes (Keyed.find? "produces" root)
        let bodies := ((sharedParameters root).map fun (bs, _) => Keyed.keys bs).getD []
        let rest := root.filter fun (k, _) => !moved.contains k
        let rest := updateField "info" textVersion rest
        let rest := Keyed.insertSorted "openapi" (.text "3.0.3") rest
        let rest := Keyed.insertSorted "components"
          (Json.ofPairs (components consumes produces root)) rest
        let rest := updateField "paths" (mapObject (pathItem consumes produces bodies)) rest
        .ok (modern (.object rest))
  | _ => .ok doc

end TypedClients.Swagger
