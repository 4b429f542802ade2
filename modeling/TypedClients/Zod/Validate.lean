import TypedClients.Config
import TypedClients.Name
import TypedClients.Resolve.Reachable
import TypedClients.Zod.Chain
import TypedClients.Zod.Release

namespace TypedClients.Zod

inductive Site where
  | param
  | query
  | header
  | body
  | response
  | model
deriving DecidableEq, Repr

structure Options where
  generation : Generation
  strict : Bool
  coerce : CoerceSetting
deriving DecidableEq, Repr

def Options.ofConfig (config : ZodConfig) (site : Site) : Options :=
  let generation := Generation.ofRange config.version
  match site with
  | .param => ⟨generation, config.strict.param, config.coerce.param⟩
  | .query => ⟨generation, config.strict.query, config.coerce.query⟩
  | .header => ⟨generation, config.strict.header, config.coerce.header⟩
  | .body => ⟨generation, config.strict.body, config.coerce.body⟩
  | .response => ⟨generation, config.strict.response, config.coerce.response⟩
  | .model => ⟨generation, false, .all false⟩

inductive RefStyle where
  /-- The schema is expanded in place, except inside itself. -/
  | inline
  /-- The model is named; `current` is the model being declared, if any. -/
  | named (current : Option String) (sharedFile : Bool)
deriving DecidableEq, Repr

inductive ValidateError where
  | badReference (path : String)
  | resolve (e : ResolveError)
deriving DecidableEq, Repr

/-- What a validator is made with. `busy` holds the names of the schemas that are being expanded. -/
structure Scope where
  arena : Arena
  options : Options
  refs : RefStyle
  busy : List String := []

def modelName (name : String) : String := (Name.ofText name).pascal

namespace Validator

def ofCall (function : String) : Validator := ⟨Chain.of function, []⟩

def ofSource (function text : String) : Validator := ⟨.call .start function (.source text), []⟩

def ofModel (name : String) : Validator := ⟨Chain.model name, []⟩

def optionalUnless (required : Bool) (v : Validator) : Validator :=
  if required then v else v.call "optional" .none

def union : List Validator → Validator
  | [v] => v
  | vs =>
    let (v, members) := start.adoptAll vs
    v.call "union" (.array members)

def and (v part : Validator) : Validator :=
  let (v, part) := v.adopt part
  v.call "and" (.validator part)

def intersection : List Validator → Validator
  | [] => start
  | first :: rest =>
    let (v, first) := start.adopt first
    rest.foldl Validator.and { v with chain := first.chain }

def arrayOf (item : Validator) : Validator :=
  let (v, item) := start.adopt item
  v.call "array" (.validator item)

def recordOf (value : Validator) : Validator :=
  let (v, value) := start.adopt value
  v.call "record" (.several [ofCall "string", value])

def literal (value : Json) : Validator :=
  ofSource "literal" (match value with
    | .text s => TypeScript.literal s
    | v => v.compact)

/-- Null among the values is not a member of its own. -/
def enumeration (values : List Json) : Validator :=
  let members := values.filter fun v => !v.isNull
  if members.isEmpty then ofCall "null"
  else if members.all fun v => v.text?.isSome then
    ofSource "enum" ("[" ++
      Text.join ", " (members.filterMap fun v => v.text?.map TypeScript.literal) ++ "]")
  else union (members.map literal)

/-- A number beside a flag is passed to the call that the flag selects. -/
def callBound (v : Validator) (name : String) (plain exclusive : String) (suffix : String)
    (bound : Option Decimal.Double) (exclusiveBound : Option ExclusiveBound) : Validator :=
  match bound, exclusiveBound with
  | _, some (.value d) => v.callConstant exclusive (name ++ "Exclusive" ++ suffix) (.number d)
  | some d, some (.flag true) => v.callConstant exclusive (name ++ suffix) (.number d)
  | some d, _ => v.callConstant plain (name ++ suffix) (.number d)
  | none, _ => v

def callCount (v : Validator) (function name : String) (count : Option Nat) : Validator :=
  match count with
  | some n => v.callConstant function name (.count n)
  | none => v

end Validator

namespace Options

def coerced (o : Options) (function : String) (type : CoerceType) : Validator :=
  .ofCall (if o.coerce.appliesTo type then "coerce." ++ function else function)

def textCheck (o : Options) (method standalone : String) : Validator :=
  match o.generation with
  | .third => (o.coerced "string" .string).call method .none
  | .fourth => .ofCall standalone

def textFormat (o : Options) (format : Option String) : Validator × Bool :=
  match format with
  | some "binary" => (.ofSource "instanceof" "File", false)
  | some "date-time" =>
    if o.coerce.appliesTo .date then (.ofCall "coerce.date", false)
    else (o.textCheck "datetime" "iso.datetime", true)
  | some "date" =>
    if o.coerce.appliesTo .date then (.ofCall "coerce.date", false)
    else (o.textCheck "date" "iso.date", true)
  | some "time" => (o.textCheck "time" "iso.time", true)
  | some "email" => (o.textCheck "email" "email", true)
  | some "uuid" => (o.textCheck "uuid" "uuid", true)
  | some "uri" => (o.textCheck "url" "url", true)
  | some "url" => (o.textCheck "url" "url", true)
  | _ => (o.coerced "string" .string, true)

def text (o : Options) (s : Keywords) (name : String) : Validator :=
  let (v, bounded) := o.textFormat s.format
  if bounded then
    let v := v.callCount "min" (name ++ "MinLength") s.minLength
    let v := v.callCount "max" (name ++ "MaxLength") s.maxLength
    match s.pattern with
    | some p => v.callConstant "regex" (name ++ "RegExp") (.pattern p)
    | none => v
  else v

def number (o : Options) (s : Keywords) (name : String) : Validator :=
  if s.format = some "int64" ∧ o.coerce.appliesTo .bigint then .ofCall "coerce.bigint"
  else
    let v := o.coerced "number" .number
    let v := v.callBound name "min" "gt" "Min" s.minimum s.exclusiveMinimum
    let v := v.callBound name "max" "lt" "Max" s.maximum s.exclusiveMaximum
    match s.multipleOf with
    | some d => v.callConstant "multipleOf" (name ++ "MultipleOf") (.number d)
    | none => v

def objectOf (o : Options) (fields : List (String × Validator)) : Validator :=
  let (v, children) := Validator.start.adoptAll (fields.map Prod.snd)
  let argument := Argument.object ((fields.map Prod.fst).zip children)
  match o.strict, o.generation with
  | true, .third => (v.call "object" argument).call "strict" .none
  | true, .fourth => v.call "strictObject" argument
  | false, _ => v.call "object" argument

end Options

/-- Null, absence and a default value, in this order. -/
def Validator.finish (v : Validator) (s : Keywords) (name : String) (required : Bool) : Validator :=
  let nullable := s.nullable.getD false || s.type.any (·.contains .null) ||
    s.enumValues.any Json.isNull
  let v := match nullable, required with
    | true, false => v.call "nullish" .none
    | true, true => v.call "nullable" .none
    | false, false => if s.default.isNone then v.call "optional" .none else v
    | false, true => v
  match s.default with
  | some d => v.callConstant "default" (name ++ "Default") (.json d)
  | none => v

namespace Scope

def leadsBack (g : Scope) (current target : String) : Bool :=
  target == current || (g.arena.reachableFrom target).contains current

/-- A model that cannot be read yet, because it leads back here or is declared later in the same
file, is returned by a function. -/
def namedModel (g : Scope) (current : Option String) (sharedFile : Bool) (path : String) :
    Except ValidateError Validator :=
  match Pointer.schemaName? path with
  | none => .error (.badReference path)
  | some target =>
    let later (current : String) : Validator :=
      ⟨.call .start "lazy" (.deferred (modelName target) (g.leadsBack current target)), []⟩
    match current with
    | some current =>
      if g.leadsBack current target || (sharedFile && modelName current < modelName target) then
        .ok (later current)
      else .ok (.ofModel (modelName target))
    | none => .ok (.ofModel (modelName target))

/-- Parts of an intersection would reject the keys of each other. -/
def lenient (g : Scope) : Scope := { g with options := { g.options with strict := false } }

def enter (g : Scope) (entry : Option String) : Scope := { g with busy := entry.toList ++ g.busy }

def unexpanded (g : Scope) : Nat := (g.arena.unexpanded g.busy).length

mutual

/-- The validator of a schema. `name` begins the names of its constants. -/
def validate (g : Scope) (r : SchemaRef) (name : String) (required : Bool) :
    Except ValidateError Validator :=
  match r with
  | .item s => g.validateSchema s name required
  | .ref path =>
    match g.refs with
    | .named current sharedFile =>
      (g.namedModel current sharedFile path).map (.optionalUnless required)
    | .inline =>
      match _h : g.arena.deref g.busy (.ref path) with
      | .error e => .error (.resolve e)
      | .ok (.cycle _) => .ok ((Validator.ofCall "any").optionalUnless required)
      | .ok (.schema entry s) => (g.enter entry).validateSchema s name required
termination_by (g.unexpanded, sizeOf r, 0)
decreasing_by
  · exact Prod.Lex.right _ (Prod.Lex.left _ _ (by simp only [Referenced.item.sizeOf_spec]; omega))
  · exact Prod.Lex.left _ _ (Arena.unexpanded_deref_lt _h)

def validateSchema (g : Scope) (s : Schema) (name : String) (required : Bool) :
    Except ValidateError Validator := do
  let v ← g.validateBase s name
  return v.finish s.toKeywords name required
termination_by (g.unexpanded, sizeOf s, 4)
decreasing_by exact Prod.Lex.right _ (Prod.Lex.right _ (by omega))

def validateBase (g : Scope) (s : Schema) (name : String) : Except ValidateError Validator :=
  if !s.oneOf.isEmpty then do
    let members ← s.oneOf.attach.zipIdx.mapM fun (m, i) =>
      g.validate m.1 (name ++ "Option" ++ Decimal.digitText (i + 1)) true
    return .union members
  else if !s.anyOf.isEmpty then do
    let members ← s.anyOf.attach.zipIdx.mapM fun (m, i) =>
      g.validate m.1 (name ++ "Option" ++ Decimal.digitText (i + 1)) true
    return .union members
  else if !s.allOf.isEmpty then do
    let parts ← s.allOf.attach.zipIdx.mapM fun (m, i) =>
      g.lenient.validate m.1 (name ++ "Part" ++ Decimal.digitText (i + 1)) true
    let own ← if s.properties.isEmpty then pure [] else
      (g.lenient.validateObject s name).map fun v => [v]
    return .intersection (parts ++ own)
  else if !s.enumValues.isEmpty then .ok (.enumeration s.enumValues)
  else match s.constValue, s.type with
    | some v, _ => .ok (.literal v)
    | none, some (.single t) => g.validateType s t name
    | none, some (.several ts) =>
      if (ts.filter (· != .null)).isEmpty then .ok (.ofCall "null")
      else ((ts.filter (· != .null)).mapM fun t => g.validateType s t name).map .union
    | none, none =>
      if !s.properties.isEmpty || s.additionalProperties.isSome then g.validateObject s name
      else if s.items.isSome then g.validateArray s name
      else .ok (.ofCall "any")
termination_by (g.unexpanded, sizeOf s, 3)
decreasing_by
  · exact Prod.Lex.right _ (Prod.Lex.left _ _
      (Nat.lt_trans (List.sizeOf_lt_of_mem m.2) s.sizeOf_oneOf))
  · exact Prod.Lex.right _ (Prod.Lex.left _ _
      (Nat.lt_trans (List.sizeOf_lt_of_mem m.2) s.sizeOf_anyOf))
  · exact Prod.Lex.right _ (Prod.Lex.left _ _
      (Nat.lt_trans (List.sizeOf_lt_of_mem m.2) s.sizeOf_allOf))
  all_goals exact Prod.Lex.right _ (Prod.Lex.right _ (by omega))

def validateType (g : Scope) (s : Schema) (t : TypeName) (name : String) :
    Except ValidateError Validator :=
  match t with
  | .string => .ok (g.options.text s.toKeywords name)
  | .number => .ok (g.options.number s.toKeywords name)
  | .integer => .ok (g.options.number s.toKeywords name)
  | .boolean => .ok (g.options.coerced "boolean" .boolean)
  | .null => .ok (.ofCall "null")
  | .array => g.validateArray s name
  | .object => g.validateObject s name
termination_by (g.unexpanded, sizeOf s, 2)
decreasing_by all_goals exact Prod.Lex.right _ (Prod.Lex.right _ (by omega))

def validateArray (g : Scope) (s : Schema) (name : String) : Except ValidateError Validator := do
  let item ← match _h : s.items with
    | some i => g.validate i (name ++ "Item") true
    | none => pure (Validator.ofCall "any")
  let v := Validator.arrayOf item
  let v := v.callCount "min" (name ++ "MinItems") s.minItems
  return v.callCount "max" (name ++ "MaxItems") s.maxItems
termination_by (g.unexpanded, sizeOf s, 1)
decreasing_by
  refine Prod.Lex.right _ (Prod.Lex.left _ _ (Nat.lt_trans ?_ s.sizeOf_items))
  rw [_h]
  simp

/-- Without properties of its own an object is a record, unless nothing else is allowed. -/
def validateObject (g : Scope) (s : Schema) (name : String) : Except ValidateError Validator :=
  if s.properties.isEmpty then
    match _h : s.additionalProperties with
    | some (.allowed false) => .ok (g.options.objectOf [])
    | some (.schema a) => (g.validate a (name ++ "Value") true).map .recordOf
    | _ => .ok (.recordOf (.ofCall "any"))
  else do
    let fields ← s.properties.attach.mapM fun p => do
      let v ← g.validate p.1.2 (name ++ modelName p.1.1) (s.required.contains p.1.1)
      return (p.1.1, v)
    return g.options.objectOf fields
termination_by (g.unexpanded, sizeOf s, 1)
decreasing_by
  · refine Prod.Lex.right _ (Prod.Lex.left _ _ (Nat.lt_trans ?_ s.sizeOf_additionalProperties))
    rw [_h]
    simp only [Option.some.sizeOf_spec, Additional.schema.sizeOf_spec]
    omega
  · exact Prod.Lex.right _ (Prod.Lex.left _ _
      (Nat.lt_trans (sizeOf_lt_of_mem_table p.2) s.sizeOf_properties))

end

def validateFields (g : Scope) (fields : List (String × Option SchemaRef × Bool)) (name : String) :
    Except ValidateError Validator :=
  (fields.mapM fun (key, schema, required) => do
    let v ← match schema with
      | some s => g.validate s (name ++ modelName key) required
      | none => pure ((Validator.ofCall "any").optionalUnless required)
    return (key, v)).map g.options.objectOf

end Scope

end TypedClients.Zod
