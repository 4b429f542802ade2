import TypedClients.Json.Value

namespace TypedClients

open Decimal (Double)

inductive Referenced (α : Type) where
  | ref (path : String)
  | item (value : α)
deriving Repr

namespace Referenced

variable {α : Type}

def item? : Referenced α → Option α
  | .ref _ => none
  | .item a => some a

end Referenced

inductive TypeName where
  | string
  | number
  | integer
  | boolean
  | array
  | object
  | null
deriving DecidableEq, Repr

inductive TypeSet where
  | single (name : TypeName)
  | several (names : List TypeName)
deriving DecidableEq, Repr

def TypeSet.names : TypeSet → List TypeName
  | .single n => [n]
  | .several ns => ns

def TypeSet.contains (t : TypeSet) (n : TypeName) : Bool := t.names.contains n

/-- A flag that sharpens the plain bound beside it, or a bound of its own. -/
inductive ExclusiveBound where
  | flag (on : Bool)
  | value (bound : Double)
deriving DecidableEq, Repr

structure Discriminator where
  propertyName : String
  mapping : List (String × String)
deriving DecidableEq, Repr

structure Keywords where
  type : Option TypeSet := none
  format : Option String := none
  description : Option String := none
  default : Option Json := none
  nullable : Option Bool := none
  readOnly : Option Bool := none
  required : List String := []
  discriminator : Option Discriminator := none
  enumValues : List Json := []
  constValue : Option Json := none
  minimum : Option Double := none
  maximum : Option Double := none
  exclusiveMinimum : Option ExclusiveBound := none
  exclusiveMaximum : Option ExclusiveBound := none
  multipleOf : Option Double := none
  minLength : Option Nat := none
  maxLength : Option Nat := none
  pattern : Option String := none
  minItems : Option Nat := none
  maxItems : Option Nat := none
deriving Repr, Inhabited

inductive Additional (σ : Type) where
  | allowed (yes : Bool)
  | schema (s : Referenced σ)
deriving Repr

structure Schema extends Keywords where
  properties : List (String × Referenced Schema) := []
  additionalProperties : Option (Additional Schema) := none
  patternProperties : List (String × Referenced Schema) := []
  dependentSchemas : List (String × Referenced Schema) := []
  items : Option (Referenced Schema) := none
  allOf : List (Referenced Schema) := []
  oneOf : List (Referenced Schema) := []
  anyOf : List (Referenced Schema) := []
  notSchema : Option (Referenced Schema) := none
  ifSchema : Option (Referenced Schema) := none
  thenSchema : Option (Referenced Schema) := none
  elseSchema : Option (Referenced Schema) := none
  definitions : List (String × Referenced Schema) := []
deriving Repr, Inhabited

abbrev SchemaRef := Referenced Schema

namespace Schema

/-- Two spellings of the same: a keyword, or `null` among the types. -/
def isNullable (s : Schema) : Bool :=
  s.nullable.getD false || s.type.any (·.contains .null)

def isArray (s : Schema) : Bool :=
  s.type.any (·.contains .array) || (s.type.isNone && s.items.isSome)

end Schema

end TypedClients
