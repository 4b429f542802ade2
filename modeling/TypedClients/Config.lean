import TypedClients.Shape.Source

namespace TypedClients

open Shape

inductive OutputMode where
  | single
  | split
  | tags
  | tagsSplit
  | operations
deriving DecidableEq, Repr

namespace OutputMode

def all : List (String × OutputMode) :=
  [("single", .single), ("split", .split), ("tags", .tags), ("tags-split", .tagsSplit),
   ("operations", .operations)]

def splitsModels : OutputMode → Bool
  | .tagsSplit => true
  | .operations => true
  | _ => false

end OutputMode

inductive ModelKind where
  | typescript
  | zod
deriving DecidableEq, Repr

namespace ModelKind

def id : ModelKind → String
  | .typescript => "typescript"
  | .zod => "zod"

def all : List (String × ModelKind) := [("typescript", .typescript), ("zod", .zod)]

end ModelKind

structure Mutator where
  path : String
  name : String
  isDefault : Bool := false
deriving DecidableEq, Repr

inductive NamingStrategy where
  | useOperationId
  | useRouteBased
deriving DecidableEq, Repr

structure Naming where
  strategy : NamingStrategy := .useOperationId
  aliases : List (String × String) := []

structure Filters where
  tags : List String := []
  excludeTags : List String := []

namespace Filters

/-- An excluded tag outweighs a selected one; without selected tags everything is selected. -/
def selects (f : Filters) (tags : List String) : Bool :=
  !tags.any f.excludeTags.contains && (f.tags.isEmpty || tags.any f.tags.contains)

end Filters

structure OperationOverride where
  mutator : Option Mutator := none
  explodeArrays : Option Bool := none
deriving DecidableEq, Repr

def OperationOverride.orElse (a b : OperationOverride) : OperationOverride where
  mutator := a.mutator.orElse fun _ => b.mutator
  explodeArrays := a.explodeArrays.orElse fun _ => b.explodeArrays

structure Overrides where
  operations : List (String × OperationOverride) := []
  tags : List (String × OperationOverride) := []

/-- The operation's own entry comes first, then its tags in order. -/
def Overrides.resolve (o : Overrides) (key : String) (tags : List String) : OperationOverride :=
  (tags.filterMap fun t => Keyed.find? t o.tags).foldl OperationOverride.orElse
    ((Keyed.find? key o.operations).getD {})

inductive CoerceType where
  | string
  | number
  | boolean
  | bigint
  | date
deriving DecidableEq, Repr

def CoerceType.all : List (String × CoerceType) :=
  [("string", .string), ("number", .number), ("boolean", .boolean), ("bigint", .bigint),
   ("date", .date)]

inductive CoerceSetting where
  | all (on : Bool)
  | only (types : List CoerceType)
deriving DecidableEq, Repr

def CoerceSetting.appliesTo (s : CoerceSetting) (t : CoerceType) : Bool :=
  match s with
  | .all on => on
  | .only ts => ts.contains t

structure PerSite (α : Type) where
  param : α
  query : α
  header : α
  body : α
  response : α

structure ZodConfig where
  version : Option String := none
  strict : PerSite Bool := ⟨false, false, false, false, false⟩
  coerce : PerSite CoerceSetting := ⟨.all false, .all false, .all false, .all false, .all false⟩

structure Target where
  name : String := "default"
  client : String := "fetch"
  output : String := "src/generated"
  mode : OutputMode := .single
  models : ModelKind := .typescript
  fileName : Option String := none
  index : Bool := true
  incrementalIndex : Bool := false
  baseUrl : Option String := none
  mutator : Option Mutator := none
  paramsSerializer : Option Mutator := none
  explodeArrays : Bool := false
  naming : Naming := {}
  filters : Filters := {}
  overrides : Overrides := {}
  zod : ZodConfig := {}

structure Config where
  input : String := "openapi.yaml"
  workspace : Option String := none
  targets : List Target := [{}]

section

variable {σ : Type} [Source σ]

def choice {α : Type} (table : List (String × α)) (v : σ) : Option α :=
  (Source.constant? (Keyed.keys table) v).bind fun n => Keyed.find? n table

def Mutator.read (v : σ) : Option Mutator := do
  let f ← Source.fields? ["path", "name", "default"] [] v
  let path ← f.required "path" text
  let name ← f.required "name" text
  let isDefault ← f.withDefault "default" bool false
  some { path, name, isDefault }

def looseFields (names : List String) (v : σ) : Option (Fields σ) :=
  (Source.fields? names [] v).map Fields.lenient

def Naming.read (v : σ) : Option Naming := do
  let f ← looseFields ["strategy", "aliases"] v
  let strategy ← f.withDefault "strategy"
    (choice [("use_operation_id", .useOperationId), ("use_route_based", .useRouteBased)])
    NamingStrategy.useOperationId
  let aliases ← f.withDefault "aliases" (tableOf text) []
  some { strategy, aliases }

def Filters.read (v : σ) : Option Filters := do
  let f ← looseFields ["tags", "exclude_tags"] v
  let tags ← f.withDefault "tags" (listOf text) []
  let excludeTags ← f.withDefault "exclude_tags" (listOf text) []
  some { tags, excludeTags }

def OperationOverride.read (v : σ) : Option OperationOverride := do
  let f ← looseFields ["mutator", "explode_arrays"] v
  let mutator ← f.optional "mutator" Mutator.read
  let explodeArrays ← f.optional "explode_arrays" bool
  some { mutator, explodeArrays }

def Overrides.read (v : σ) : Option Overrides := do
  let f ← looseFields ["operations", "tags"] v
  let operations ← f.withDefault "operations" (tableOf OperationOverride.read) []
  let tags ← f.withDefault "tags" (tableOf OperationOverride.read) []
  some { operations, tags }

def CoerceSetting.ofDatum? : Datum → Option CoerceSetting
  | .bool b => some (.all b)
  | d => (listOf (choice CoerceType.all) d).map .only

def CoerceSetting.read (v : σ) : Option CoerceSetting := (Source.datum? v).bind ofDatum?

def PerSite.read {α : Type} (read : σ → Option α) (default : α) (v : σ) : Option (PerSite α) := do
  let f ← looseFields ["param", "query", "header", "body", "response"] v
  let param ← f.withDefault "param" read default
  let query ← f.withDefault "query" read default
  let header ← f.withDefault "header" read default
  let body ← f.withDefault "body" read default
  let response ← f.withDefault "response" read default
  some { param, query, header, body, response }

def ZodConfig.read (v : σ) : Option ZodConfig := do
  let f ← looseFields ["version", "strict", "coerce"] v
  let version ← f.optional "version" text
  let strict ← f.withDefault "strict" (PerSite.read bool false) ({} : ZodConfig).strict
  let coerce ← f.withDefault "coerce" (PerSite.read CoerceSetting.read (.all false))
    ({} : ZodConfig).coerce
  some { version, strict, coerce }

def Target.read (v : σ) : Option Target := do
  let f ← looseFields ["name", "client", "output", "mode", "models", "file_name", "index",
    "incremental_index", "base_url", "mutator", "params_serializer", "explode_arrays", "naming",
    "filters", "overrides", "zod"] v
  let name ← f.withDefault "name" text "default"
  let client ← f.withDefault "client" text "fetch"
  let output ← f.withDefault "output" text "src/generated"
  let mode ← f.withDefault "mode" (choice OutputMode.all) .single
  let models ← f.withDefault "models" (choice ModelKind.all) .typescript
  let fileName ← f.optional "file_name" text
  let index ← f.withDefault "index" bool true
  let incrementalIndex ← f.withDefault "incremental_index" bool false
  let baseUrl ← f.optional "base_url" text
  let mutator ← f.optional "mutator" Mutator.read
  let paramsSerializer ← f.optional "params_serializer" Mutator.read
  let explodeArrays ← f.withDefault "explode_arrays" bool false
  let naming ← f.withDefault "naming" Naming.read {}
  let filters ← f.withDefault "filters" Filters.read {}
  let overrides ← f.withDefault "overrides" Overrides.read {}
  let zod ← f.withDefault "zod" ZodConfig.read {}
  some { name, client, output, mode, models, fileName, index, incrementalIndex, baseUrl, mutator,
         paramsSerializer, explodeArrays, naming, filters, overrides, zod }

def Config.read (v : σ) : Option Config := do
  let f ← looseFields ["input", "workspace", "targets"] v
  let input ← f.withDefault "input" text "openapi.yaml"
  let workspace ← f.optional "workspace" text
  let targets ← f.withDefault "targets" (listOf Target.read) [{}]
  some { input, workspace, targets }

end

end TypedClients
