import TypedClients.Json.Printer
import TypedClients.TypeScript.Text

namespace TypedClients.Zod

open Decimal (Double)

inductive ConstantValue where
  | number (value : Double)
  | count (value : Nat)
  | json (value : Json)
  | pattern (expression : String)
  | source (text : String)

/-- Whole numbers of moderate size are written without a fraction, and no number in scientific
notation. -/
def writeNumber (d : Double) : String :=
  match d.toInt? with
  | some i =>
    if i.natAbs < Nat.pow 10 15 then (Number.int i).write
    else Decimal.Layout.write ⟨none, none, false⟩ d
  | none => Decimal.Layout.write ⟨none, none, false⟩ d

def ConstantValue.write : ConstantValue → String
  | .number d => writeNumber d
  | .count n => Decimal.digitText n
  | .json v => v.compact
  | .pattern e => "new RegExp(" ++ TypeScript.literal e ++ ")"
  | .source text => text

structure Constant where
  name : String
  value : ConstantValue

def Constant.line (c : Constant) : String :=
  "export const " ++ c.name ++ " = " ++ c.value.write ++ ";"

mutual

inductive Chain where
  | start
  | name (before : Chain) (identifier : String)
  | call (before : Chain) (function : String) (argument : Argument)

inductive Argument where
  | none
  | source (text : String)
  | constant (name : String)
  /-- A function that returns a model which cannot be read yet; `cyclic` when the model leads back
  to the one being declared. -/
  | deferred (model : String) (cyclic : Bool)
  | validator (v : Validator)
  | several (vs : List Validator)
  | array (vs : List Validator)
  | object (fields : List (String × Validator))

/-- A chain and the constants that are declared before it. -/
structure Validator where
  chain : Chain
  constants : List Constant := []

end

instance : Inhabited Chain := ⟨.start⟩

instance : Inhabited Argument := ⟨.none⟩

instance : Inhabited Validator := ⟨⟨.start, []⟩⟩

namespace Chain

def isStart : Chain → Bool
  | .start => true
  | _ => false

def of (function : String) : Chain := .call .start function .none

def model (identifier : String) : Chain := .name .start identifier

end Chain

mutual

def Chain.write (depth : Nat) : Chain → String
  | .start => ""
  | .name c n => c.write depth ++ (if c.isStart then "" else ".") ++ n
  | .call c f a =>
    c.write depth ++ (if c.isStart then "zod." else ".") ++ f ++ "(" ++ a.write depth ++ ")"

def Argument.write (depth : Nat) : Argument → String
  | .none => ""
  | .source text => text
  | .constant name => name
  | .deferred model _ => "() => " ++ model
  | .validator v => v.write depth
  | .several vs => Text.join ", " (writeMembers depth vs)
  | .array vs => "[" ++ Text.join ", " (writeMembers depth vs) ++ "]"
  | .object [] => "\x7b\x7d"
  | .object fields =>
    "\x7b\n" ++ Text.join "" (writeFields (depth + 1) fields) ++ Text.indentation depth ++ "\x7d"

/-- Constants of a validator inside a chain are not written. -/
def Validator.write (depth : Nat) : Validator → String
  | ⟨c, _⟩ => c.write depth

def writeMembers (depth : Nat) : List Validator → List String
  | [] => []
  | v :: rest => v.write depth :: writeMembers depth rest

def writeFields (depth : Nat) : List (String × Validator) → List String
  | [] => []
  | (key, v) :: rest =>
    (Text.indentation depth ++ TypeScript.propertyKey key ++ ": " ++ v.write depth ++ ",\n") ::
      writeFields depth rest

end

-- The models that a chain mentions.

mutual

def Chain.models : Chain → List String
  | .start => []
  | .name c n => c.models ++ [n]
  | .call c _ a => c.models ++ a.models

def Argument.models : Argument → List String
  | .deferred model _ => [model]
  | .validator v => modelsOfValidator v
  | .several vs => modelsOfMembers vs
  | .array vs => modelsOfMembers vs
  | .object fields => modelsOfFields fields
  | _ => []

def modelsOfValidator : Validator → List String
  | ⟨c, _⟩ => c.models

def modelsOfMembers : List Validator → List String
  | [] => []
  | v :: rest => modelsOfValidator v ++ modelsOfMembers rest

def modelsOfFields : List (String × Validator) → List String
  | [] => []
  | (_, v) :: rest => modelsOfValidator v ++ modelsOfFields rest

end

-- Whether a chain leads back to the model that it declares.

mutual

def Chain.isCyclic : Chain → Bool
  | .start => false
  | .name c _ => c.isCyclic
  | .call c _ a => c.isCyclic || a.isCyclic

def Argument.isCyclic : Argument → Bool
  | .deferred _ cyclic => cyclic
  | .validator v => v.isCyclic
  | .several vs => anyCyclic vs
  | .array vs => anyCyclic vs
  | .object fields => anyFieldCyclic fields
  | _ => false

def Validator.isCyclic : Validator → Bool
  | ⟨c, _⟩ => c.isCyclic

def anyCyclic : List Validator → Bool
  | [] => false
  | v :: rest => v.isCyclic || anyCyclic rest

def anyFieldCyclic : List (String × Validator) → Bool
  | [] => false
  | (_, v) :: rest => v.isCyclic || anyFieldCyclic rest

end

namespace Validator

def start : Validator := ⟨.start, []⟩

def call (v : Validator) (function : String) (argument : Argument) : Validator :=
  { v with chain := v.chain.call function argument }

def callConstant (v : Validator) (function name : String) (value : ConstantValue) : Validator :=
  ⟨v.chain.call function (.constant name), v.constants ++ [⟨name, value⟩]⟩

def emptied (v : Validator) : Validator := { v with constants := [] }

/-- The constants of a child go over to the validator of which it becomes a part. -/
def adopt (v child : Validator) : Validator × Validator :=
  ({ v with constants := v.constants ++ child.constants }, child.emptied)

def adoptAll (v : Validator) : List Validator → Validator × List Validator
  | [] => (v, [])
  | child :: rest =>
    let (v, child) := v.adopt child
    let (v, children) := v.adoptAll rest
    (v, child :: children)

theorem adoptAll_eq (v : Validator) (children : List Validator) :
    v.adoptAll children =
      (⟨v.chain, v.constants ++ children.flatMap (·.constants)⟩, children.map emptied) := by
  induction children generalizing v with
  | nil =>
    cases v
    simp [adoptAll]
  | cons child rest ih => simp [adoptAll, adopt, ih]

def constantLines (v : Validator) : List String := v.constants.map Constant.line

def expression (v : Validator) : String := v.chain.write 0

def declaration (name : String) (v : Validator) : String :=
  let assignment := "export const " ++ name ++ " = " ++ v.expression ++ ";"
  if v.constants.isEmpty then assignment
  else Text.join "\n" v.constantLines ++ "\n\n" ++ assignment

def models (v : Validator) : List String := Names.ofList v.chain.models

end Validator

end TypedClients.Zod
