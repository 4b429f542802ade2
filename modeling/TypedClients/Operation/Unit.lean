import TypedClients.Operation.Record

namespace TypedClients

structure OutputUnit where
  name : String
  path : String
  members : List Nat
deriving DecidableEq, Repr

/-- Members under one folded key; `label` belongs to the first of them. -/
structure KeyGroup where
  key : String
  label : String
  members : List Nat

/-- Keys are folded to lower case; groups stand in the order in which their keys first came. -/
def addToGroup (label : String) (fold : String) (i : Nat) : List KeyGroup → List KeyGroup
  | [] => [⟨fold, label, [i]⟩]
  | g :: rest =>
    if g.key = fold then { g with members := g.members ++ [i] } :: rest
    else g :: addToGroup label fold i rest

def groupBy (key label : Endpoint → String) (endpoints : List Endpoint) : List KeyGroup :=
  endpoints.zipIdx.foldl (fun groups (e, i) => addToGroup (label e) (key e) i groups) []

def Endpoint.firstTag (e : Endpoint) : String := e.tags.head?.getD "default"

def stem (name : String) : String := (Name.ofText name).camel

def tagGroups (endpoints : List Endpoint) : List KeyGroup :=
  (groupBy (fun e => Text.lower (stem e.firstTag)) Endpoint.firstTag endpoints).mergeSort
    fun a b => !decide (b.key < a.key)

def planUnits (endpoints : List Endpoint) (mode : OutputMode) (title fileStem : String) :
    List OutputUnit :=
  match mode with
  | .single | .split => [⟨title, fileStem ++ ".ts", List.range endpoints.length⟩]
  | .tags => (tagGroups endpoints).map fun g => ⟨g.label, stem g.label ++ ".ts", g.members⟩
  | .tagsSplit => (tagGroups endpoints).map fun g =>
      ⟨g.label, stem g.label ++ "/" ++ stem g.label ++ ".ts", g.members⟩
  | .operations =>
    (groupBy (fun e => Text.lower e.name.camel) (·.name.camel) endpoints).map fun g =>
      ⟨g.label, "endpoints/" ++ g.label ++ ".ts", g.members⟩

def modelPath (mode : OutputMode) (fileStem name : String) : String :=
  match mode with
  | .single => fileStem ++ ".ts"
  | .split | .tags => fileStem ++ ".schemas.ts"
  | .tagsSplit | .operations => "model/" ++ stem name ++ ".ts"

structure Collision where
  name : String
  unit : String
  first : String
  second : String
deriving DecidableEq, Repr

def Collision.message (c : Collision) : String :=
  "operation name \x60" ++ c.name ++ "\x60 is used twice in output unit \x60" ++ c.unit ++
    "\x60: " ++ c.first ++ " and " ++ c.second

def findCollision (unit : String) (seen : List Endpoint) : List Endpoint → Option Collision
  | [] => none
  | e :: rest =>
    match seen.find? fun f => Text.lower f.name.camel == Text.lower e.name.camel with
    | some f => some ⟨e.name.camel, unit, f.location, e.location⟩
    | none => findCollision unit (seen ++ [e]) rest

def OutputUnit.endpoints (u : OutputUnit) (all : List Endpoint) : List Endpoint :=
  u.members.filterMap fun i => all[i]?

def OutputUnit.collision? (u : OutputUnit) (all : List Endpoint) : Option Collision :=
  findCollision u.name [] (u.endpoints all)

end TypedClients
