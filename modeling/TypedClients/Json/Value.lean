import TypedClients.Keyed
import TypedClients.Decimal.Layout

namespace TypedClients

open Decimal (Double)

inductive Number where
  | int (value : Int)
  | double (value : Double)
deriving DecidableEq, Repr

/-- An object holds its fields in increasing order of their keys. -/
inductive Json where
  | null
  | bool (value : Bool)
  | number (value : Number)
  | text (value : String)
  | array (items : List Json)
  | object (fields : List (String × Json))
deriving Repr, Inhabited

namespace Json

def ofPairs (pairs : List (String × Json)) : Json := .object (Keyed.sortedOfList pairs)

def nat (n : Nat) : Json := .number (.int n)

def isNull : Json → Bool
  | .null => true
  | _ => false

def field? (key : String) : Json → Option Json
  | .object fields => Keyed.find? key fields
  | _ => none

def text? : Json → Option String
  | .text s => some s
  | _ => none

def items? : Json → Option (List Json)
  | .array items => some items
  | _ => none

mutual

def same : Json → Json → Bool
  | .null, .null => true
  | .bool a, .bool b => a == b
  | .number a, .number b => a == b
  | .text a, .text b => a == b
  | .array a, .array b => sameItems a b
  | .object a, .object b => sameFields a b
  | _, _ => false

def sameItems : List Json → List Json → Bool
  | [], [] => true
  | a :: as, b :: bs => same a b && sameItems as bs
  | _, _ => false

def sameFields : List (String × Json) → List (String × Json) → Bool
  | [], [] => true
  | (k, a) :: as, (l, b) :: bs => k == l && same a b && sameFields as bs
  | _, _ => false

end

end Json

end TypedClients
