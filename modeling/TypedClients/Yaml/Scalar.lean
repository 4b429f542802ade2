import TypedClients.Yaml.Node
import TypedClients.Datum

namespace TypedClients.Yaml

open Decimal (Double)

def isNullText (s : String) : Bool := ["null", "Null", "NULL", "~"].contains s

def boolText? (s : String) : Option Bool :=
  if ["true", "True", "TRUE"].contains s then some true
  else if ["false", "False", "FALSE"].contains s then some false
  else none

def digit? (radix : Nat) (c : Char) : Option Nat :=
  (hexDigit? c).bind fun d => if d < radix then some d else none

def digits? (radix : Nat) (cs : List Char) : Option Nat :=
  if cs.isEmpty then none
  else cs.foldlM (fun acc c => (digit? radix c).map fun d => acc * radix + d) 0

def dropPlus : List Char → List Char
  | '+' :: rest => rest
  | cs => cs

def isSign (c : Char) : Bool := c == '+' || c == '-'

/-- Several digits that begin with a zero are no number. -/
def isPaddedDigits (cs : List Char) : Bool :=
  let cs := if cs.head?.any isSign then cs.tail else cs
  cs.length > 1 && cs.head? == some '0' && cs.all Char.isDigit

def radixMagnitude? (cs : List Char) : Option Nat :=
  match cs with
  | '0' :: 'x' :: rest => digits? 16 rest
  | '0' :: 'o' :: rest => digits? 8 rest
  | '0' :: 'b' :: rest => digits? 2 rest
  | _ => none

def natText? (cs : List Char) : Option Nat :=
  match radixMagnitude? (dropPlus cs) with
  | some n => some n
  | none => if isPaddedDigits cs then none else digits? 10 (dropPlus cs)

def negativeText? (cs : List Char) : Option Nat :=
  match cs with
  | '-' :: rest =>
    match radixMagnitude? rest with
    | some n => some n
    | none => if isPaddedDigits cs then none else digits? 10 rest
  | _ => none

/-- A decimal fraction: at least one digit beside the point, and an optional exponent. -/
def decimalText? (cs : List Char) : Option Double := do
  let (negative, cs) := match cs with
    | '-' :: rest => (true, rest)
    | '+' :: rest => (false, rest)
    | _ => (false, cs)
  let whole := cs.takeWhile Char.isDigit
  let rest := cs.dropWhile Char.isDigit
  let (fraction, rest) := match rest with
    | '.' :: rest => (rest.takeWhile Char.isDigit, rest.dropWhile Char.isDigit)
    | _ => ([], rest)
  let digits := whole ++ fraction
  let exponent : Int ← match rest with
    | [] => some 0
    | c :: rest =>
      if c == 'e' || c == 'E' then
        let (down, ds) := match rest with
          | '-' :: rest => (true, rest)
          | '+' :: rest => (false, rest)
          | _ => (false, rest)
        (digits? 10 ds).map fun (n : Nat) =>
          if down then -(min n 100000 : Nat) else (min n 100000 : Nat)
      else none
  if digits.isEmpty then none
  else
    let n ← digits? 10 digits
    let d := Double.ofDecimal negative n (exponent - fraction.length)
    if d.isFinite then some d else none

def doubleText? (s : String) : Option Double :=
  let cs := s.toList
  let unsigned := String.ofList (dropPlus cs)
  if cs.head? == some '+' && (dropPlus cs).head?.any isSign then none
  else if [".inf", ".Inf", ".INF"].contains unsigned then some (Double.infinity false)
  else if ["-.inf", "-.Inf", "-.INF"].contains s then some (Double.infinity true)
  else if [".nan", ".NaN", ".NAN"].contains s then some Double.nan
  else decimalText? cs

/-- Whole numbers beyond 64 bits have no value up to 128 bits, and are read as fractions from
there. -/
inductive IntReading where
  | value (i : Int)
  | tooLarge
  | other

def intText (s : String) : IntReading :=
  let cs := s.toList
  match natText? cs, negativeText? cs with
  | some n, _ =>
    if n < Nat.pow 2 64 then .value n else if n < Nat.pow 2 128 then .tooLarge else .other
  | none, some n =>
    if n ≤ Nat.pow 2 63 then .value (-n) else if n ≤ Nat.pow 2 127 then .tooLarge else .other
  | none, none => .other

def plainDatum? (s : String) : Option Datum :=
  if s == "" || isNullText s then some .null
  else match boolText? s, intText s with
    | some b, _ => some (.bool b)
    | none, .value i => some (.number (.int i))
    | none, .tooLarge => none
    | none, .other =>
      match if isPaddedDigits s.toList then none else doubleText? s with
      | some d => some (.number (.double d))
      | none => some (.text s)

def coreTag (name : String) : String := "tag:yaml.org,2002:" ++ name

/-- A tag of the core set fixes the type; a local tag has no reading. -/
def Scalar.datum? (s : Scalar) : Option Datum :=
  match s.tag with
  | none => if s.plain then plainDatum? s.text else some (.text s.text)
  | some tag =>
    if tag.startsWith "!" then none
    else if tag == coreTag "bool" then (boolText? s.text).map .bool
    else if tag == coreTag "int" then
      match intText s.text with
      | .value i => some (.number (.int i))
      | _ => none
    else if tag == coreTag "float" then (doubleText? s.text).map fun d => .number (.double d)
    else if tag == coreTag "null" then if isNullText s.text then some .null else none
    else some (.text s.text)

/-- An empty text and the names of nothing, unless a tag of another type stands before it. -/
def Scalar.isNull (s : Scalar) : Bool :=
  match s.tag with
  | none => s.text == "" || isNullText s.text
  | some tag => tag == coreTag "null" && isNullText s.text

def isLocalTag (tag : Option String) : Bool := tag.any (·.startsWith "!")

mutual

def Node.datum? (depth : Nat) : Node → Option Datum
  | .scalar s => s.datum?
  | .sequence tag items =>
    match depth with
    | 0 => none
    | depth + 1 => if isLocalTag tag then none else (itemData? depth items).map .list
  | .mapping tag entries =>
    match depth with
    | 0 => none
    | depth + 1 => if isLocalTag tag then none else (entryData? depth entries).map .record
  | .recursive => none
  | .absent => some .null

def itemData? (depth : Nat) : List Node → Option (List Datum)
  | [] => some []
  | item :: rest =>
    match Node.datum? depth item, itemData? depth rest with
    | some d, some ds => some (d :: ds)
    | _, _ => none

def entryData? (depth : Nat) : List (Node × Node) → Option (List (Datum × Datum))
  | [] => some []
  | (key, value) :: rest =>
    match Node.datum? depth key, Node.datum? depth value, entryData? depth rest with
    | some k, some v, some es => some ((k, v) :: es)
    | _, _, _ => none

end

mutual

/-- The untyped reading as an object with sorted keys: every key is the text of its scalar. -/
def Node.json? (depth : Nat) : Node → Option Json
  | .scalar s => s.datum?.bind Datum.toJson?
  | .sequence tag items =>
    match depth with
    | 0 => none
    | depth + 1 => if isLocalTag tag then none else (itemJson? depth items).map .array
  | .mapping tag entries =>
    match depth with
    | 0 => none
    | depth + 1 => if isLocalTag tag then none else (entryJson? depth entries).map Json.ofPairs
  | .recursive => none
  | .absent => some .null

def itemJson? (depth : Nat) : List Node → Option (List Json)
  | [] => some []
  | item :: rest =>
    match Node.json? depth item, itemJson? depth rest with
    | some v, some vs => some (v :: vs)
    | _, _ => none

def entryJson? (depth : Nat) : List (Node × Node) → Option (List (String × Json))
  | [] => some []
  | (.scalar key, value) :: rest =>
    match Node.json? depth value, entryJson? depth rest with
    | some v, some vs => some ((key.text, v) :: vs)
    | _, _ => none
  | _ :: _ => none

end

def maxDepth : Nat := 128

end TypedClients.Yaml
