import TypedClients.Document.Basic
import TypedClients.Shape.Source

namespace TypedClients

open Decimal (Double)
open Shape

def number? : Datum → Option Double
  | .number (.int i) => some (Double.ofInt i)
  | .number (.double d) => some d
  | _ => none

def size? : Datum → Option Nat
  | .number (.int i) => if 0 ≤ i ∧ i.toNat < Nat.pow 2 64 then some i.toNat else none
  | _ => none

/-- A record with a textual `$ref` is a reference, whatever else it holds. -/
def reference? (d : Datum) : Option String :=
  match d with
  | .record _ => (datumFields? ["$ref"] [] d).bind fun f => f.required "$ref" text
  | _ => none

def referenced {α : Type} (read : Datum → Option α) (d : Datum) : Option (Referenced α) :=
  match reference? d with
  | some path => some (.ref path)
  | none => (read d).map .item

namespace TypeName

def all : List (String × TypeName) :=
  [("string", .string), ("number", .number), ("integer", .integer), ("boolean", .boolean),
   ("array", .array), ("object", .object), ("null", .null)]

def read (d : Datum) : Option TypeName :=
  (constantName? (Keyed.keys all) d).bind fun n => Keyed.find? n all

end TypeName

def TypeSet.read (d : Datum) : Option TypeSet :=
  match TypeName.read d with
  | some n => some (.single n)
  | none => (listOf TypeName.read d).map .several

def ExclusiveBound.read : Datum → Option ExclusiveBound
  | .bool b => some (.flag b)
  | d => (number? d).map .value

def Discriminator.read (d : Datum) : Option Discriminator := do
  let f ← datumFields? ["propertyName", "mapping"] [] d
  let propertyName ← f.required "propertyName" text
  let mapping ← f.withDefault "mapping" (tableOf text) []
  some { propertyName, mapping }

namespace Schema

def fieldNames : List String :=
  ["type", "format", "description", "default", "nullable", "readOnly", "properties", "required",
   "additionalProperties", "patternProperties", "dependentSchemas", "items", "allOf", "oneOf",
   "anyOf", "not", "if", "then", "else", "definitions", "discriminator", "enum", "const", "minimum",
   "maximum", "exclusiveMinimum", "exclusiveMaximum", "multipleOf", "minLength", "maxLength",
   "pattern", "minItems", "maxItems"]

def fieldAliases : List (String × String) := [("$defs", "definitions")]

def readKeywords (f : Fields Datum) : Option Keywords := do
  let type ← f.optional "type" TypeSet.read
  let format ← f.optional "format" text
  let description ← f.optional "description" text
  let default ← f.optional "default" Datum.toJson?
  let nullable ← f.optional "nullable" bool
  let readOnly ← f.optional "readOnly" bool
  let required ← f.withDefault "required" (listOf text) []
  let discriminator ← f.optional "discriminator" Discriminator.read
  let enumValues ← f.withDefault "enum" (listOf Datum.toJson?) []
  let constValue ← f.optional "const" Datum.toJson?
  let minimum ← f.optional "minimum" number?
  let maximum ← f.optional "maximum" number?
  let exclusiveMinimum ← f.optional "exclusiveMinimum" ExclusiveBound.read
  let exclusiveMaximum ← f.optional "exclusiveMaximum" ExclusiveBound.read
  let multipleOf ← f.optional "multipleOf" number?
  let minLength ← f.optional "minLength" size?
  let maxLength ← f.optional "maxLength" size?
  let pattern ← f.optional "pattern" text
  let minItems ← f.optional "minItems" size?
  let maxItems ← f.optional "maxItems" size?
  some { type, format, description, default, nullable, readOnly, required, discriminator,
         enumValues, constValue, minimum, maximum, exclusiveMinimum, exclusiveMaximum, multipleOf,
         minLength, maxLength, pattern, minItems, maxItems }

def readAdditional (sub : Datum → Option SchemaRef) : Datum → Option (Additional Schema)
  | .bool b => some (.allowed b)
  | d => (sub d).map .schema

/-- Every field may be missing. `sub` reads the schemas inside. -/
def readWith (sub : Datum → Option SchemaRef) (d : Datum) : Option Schema := do
  let f := (← datumFields? fieldNames fieldAliases d).lenient
  let keywords ← readKeywords f
  let properties ← f.withDefault "properties" (tableOf sub) []
  let additionalProperties ← f.optional "additionalProperties" (readAdditional sub)
  let patternProperties ← f.withDefault "patternProperties" (tableOf sub) []
  let dependentSchemas ← f.withDefault "dependentSchemas" (tableOf sub) []
  let items ← f.optional "items" sub
  let allOf ← f.withDefault "allOf" (listOf sub) []
  let oneOf ← f.withDefault "oneOf" (listOf sub) []
  let anyOf ← f.withDefault "anyOf" (listOf sub) []
  let notSchema ← f.optional "not" sub
  let ifSchema ← f.optional "if" sub
  let thenSchema ← f.optional "then" sub
  let elseSchema ← f.optional "else" sub
  let definitions ← f.withDefault "definitions" (tableOf sub) []
  some { toKeywords := keywords, properties, additionalProperties, patternProperties,
         dependentSchemas, items, allOf, oneOf, anyOf, notSchema, ifSchema, thenSchema, elseSchema,
         definitions }

/-- Schemas lie strictly deeper than the schema that holds them, so the depth of the value bounds
the recursion. -/
def readRefWithin : Nat → Datum → Option SchemaRef
  | 0, _ => none
  | depth + 1, d => referenced (readWith (readRefWithin depth)) d

end Schema

def SchemaRef.read (d : Datum) : Option SchemaRef := Schema.readRefWithin (d.depth + 1) d

namespace Parameter

def locations : List (String × ParameterLocation) :=
  [("path", .path), ("query", .query), ("header", .header), ("cookie", .cookie)]

def readLocation (d : Datum) : Option ParameterLocation :=
  (constantName? (Keyed.keys locations) d).bind fun n => Keyed.find? n locations

def read (d : Datum) : Option Parameter := do
  let f ← datumFields?
    ["name", "in", "description", "required", "deprecated", "schema", "explode"] [] d
  let name ← f.required "name" text
  let location ← f.required "in" readLocation
  let description ← f.optional "description" text
  let required ← f.withDefault "required" bool false
  let deprecated ← f.withDefault "deprecated" bool false
  let schema ← f.optional "schema" SchemaRef.read
  let explode ← f.optional "explode" bool
  some { name, location, description, required, deprecated, schema, explode }

end Parameter

def MediaType.read (d : Datum) : Option MediaType := do
  let f ← datumFields? ["schema"] [] d
  let schema ← f.optional "schema" SchemaRef.read
  some { schema }

def RequestBody.read (d : Datum) : Option RequestBody := do
  let f ← datumFields? ["description", "content", "required"] [] d
  let description ← f.optional "description" text
  let content ← f.required "content" (tableOf MediaType.read)
  let required ← f.withDefault "required" bool false
  some { description, content, required }

def Response.read (d : Datum) : Option Response := do
  let f ← datumFields? ["description", "content"] [] d
  let description ← f.withDefault "description" text ""
  let content ← f.withDefault "content" (tableOf MediaType.read) []
  some { description, content }

section

variable {σ : Type} [Source σ]

def typed {α : Type} (read : Datum → Option α) (v : σ) : Option α := (Source.datum? v).bind read

def schemaAt (v : σ) : Option SchemaRef := typed SchemaRef.read v

def parameterAt (v : σ) : Option (Referenced Parameter) := typed (referenced Parameter.read) v

def requestBodyAt (v : σ) : Option (Referenced RequestBody) := typed (referenced RequestBody.read) v

def responseAt (v : σ) : Option (Referenced Response) := typed (referenced Response.read) v

def Operation.read (v : σ) : Option Operation := do
  let f ← Source.fields? ["operationId", "summary", "description", "tags", "parameters",
    "requestBody", "responses", "deprecated"] [] v
  let operationId ← f.optional "operationId" text
  let summary ← f.optional "summary" text
  let description ← f.optional "description" text
  let tags ← f.withDefault "tags" (listOf text) []
  let parameters ← f.withDefault "parameters" (listOf parameterAt) []
  let requestBody ← f.optional "requestBody" requestBodyAt
  let responses ← f.withDefault "responses" (tableOf responseAt) []
  let deprecated ← f.withDefault "deprecated" bool false
  some { operationId, summary, description, tags, parameters, requestBody, responses, deprecated }

def PathItem.read (v : σ) : Option PathItem := do
  let f ← Source.fields? ("parameters" :: Verb.all.map Verb.name) [] v
  let parameters ← f.withDefault "parameters" (listOf parameterAt) []
  let slots ← Verb.all.mapM fun verb =>
    (f.optional verb.name Operation.read).map fun op => op.map fun o => (verb, o)
  some { parameters, operations := slots.filterMap id }

def Components.read (v : σ) : Option Components := do
  let f := (← Source.fields? ["schemas", "parameters", "requestBodies", "responses"] [] v).lenient
  let schemas ← f.withDefault "schemas" (tableOf schemaAt) []
  let parameters ← f.withDefault "parameters" (tableOf parameterAt) []
  let requestBodies ← f.withDefault "requestBodies" (tableOf requestBodyAt) []
  let responses ← f.withDefault "responses" (tableOf responseAt) []
  some { schemas, parameters, requestBodies, responses }

def Info.read (v : σ) : Option Info := do
  let f ← Source.fields? ["title", "version", "description"] [] v
  let title ← f.required "title" text
  let version ← f.required "version" text
  let description ← f.optional "description" text
  some { title, version, description }

def Document.read (v : σ) : Option Document := do
  let f ← Source.fields? ["openapi", "info", "paths", "components", "definitions"] [] v
  let openapi ← f.required "openapi" text
  let info ← f.required "info" Info.read
  let paths ← f.withDefault "paths" (tableOf PathItem.read) []
  let components ← f.optional "components" Components.read
  let definitions ← f.withDefault "definitions" (tableOf schemaAt) []
  some { openapi, info, paths, components, definitions }

end

end TypedClients
