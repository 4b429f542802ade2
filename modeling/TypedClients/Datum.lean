import TypedClients.Json.Value

namespace TypedClients

/-- A value whose scalars already have their types. Unlike in `Json`, a key may be any value, keys
keep their order and may repeat. -/
inductive Datum where
  | null
  | bool (value : Bool)
  | number (value : Number)
  | text (value : String)
  | list (items : List Datum)
  | record (entries : List (Datum × Datum))
deriving Repr, Inhabited

namespace Datum

mutual

def ofJson : Json → Datum
  | .null => .null
  | .bool b => .bool b
  | .number n => .number n
  | .text s => .text s
  | .array items => .list (ofItems items)
  | .object fields => .record (ofFields fields)

def ofItems : List Json → List Datum
  | [] => []
  | item :: rest => ofJson item :: ofItems rest

def ofFields : List (String × Json) → List (Datum × Datum)
  | [] => []
  | (key, value) :: rest => (.text key, ofJson value) :: ofFields rest

end

mutual

/-- Only texts may be keys of an object; a number outside the reals is lost. -/
def toJson? : Datum → Option Json
  | .null => some .null
  | .bool b => some (.bool b)
  | .number (.int i) => some (.number (.int i))
  | .number (.double d) => some (if d.isFinite then .number (.double d) else .null)
  | .text s => some (.text s)
  | .list items => (toItems? items).map .array
  | .record entries => (toFields? entries).map Json.ofPairs

def toItems? : List Datum → Option (List Json)
  | [] => some []
  | item :: rest =>
    match toJson? item, toItems? rest with
    | some v, some vs => some (v :: vs)
    | _, _ => none

def toFields? : List (Datum × Datum) → Option (List (String × Json))
  | [] => some []
  | (.text key, value) :: rest =>
    match toJson? value, toFields? rest with
    | some v, some vs => some ((key, v) :: vs)
    | _, _ => none
  | _ :: _ => none

end

mutual

def depth : Datum → Nat
  | .list items => depthItems items + 1
  | .record entries => depthEntries entries + 1
  | _ => 0

def depthItems : List Datum → Nat
  | [] => 0
  | item :: rest => max (depth item) (depthItems rest)

def depthEntries : List (Datum × Datum) → Nat
  | [] => 0
  | (_, value) :: rest => max (depth value) (depthEntries rest)

end

end Datum

end TypedClients
