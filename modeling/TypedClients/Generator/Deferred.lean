import TypedClients.Keyed

namespace TypedClients

/-- Text that is put off until the end of a unit, by the name of the operation it belongs to. -/
structure Deferred where
  entries : List (String × String) := []
deriving DecidableEq, Repr

namespace Deferred

def find? (d : Deferred) (operation : String) : Option String := Keyed.find? operation d.entries

/-- A later text takes the place of an earlier one. -/
def register (d : Deferred) (operation text : String) : Deferred :=
  ⟨Keyed.insert operation text d.entries⟩

def flush (d : Deferred) (operations : List String) : List String := operations.filterMap d.find?

def clear (d : Deferred) (operations : List String) : Deferred :=
  ⟨operations.foldl (fun entries n => Keyed.erase n entries) d.entries⟩

def size (d : Deferred) : Nat := d.entries.length

end Deferred

end TypedClients
