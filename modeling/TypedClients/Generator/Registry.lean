import TypedClients.Json.Printer
import TypedClients.TypeScript.Emitter

namespace TypedClients

structure Registry where
  backends : List Backend := []
  emitters : List ModelEmitter := [TypeScript.emitter]

/-- Takes the place of an entry with the same identifier, and the last place otherwise. -/
def putById {α : Type} (id : α → String) (a : α) : List α → List α
  | [] => [a]
  | b :: rest => if id b = id a then a :: rest else b :: putById id a rest

namespace Registry

def register (r : Registry) (b : Backend) : Registry :=
  { r with backends := putById Backend.id b r.backends }

def registerEmitter (r : Registry) (e : ModelEmitter) : Registry :=
  { r with emitters := putById ModelEmitter.id e r.emitters }

def backend (r : Registry) (id : String) : Except GenerationError Backend :=
  match r.backends.find? fun b => b.id == id with
  | some b => .ok b
  | none => .error (.unknownBackend id)

def emitter (r : Registry) (id : String) : Except GenerationError ModelEmitter :=
  match r.emitters.find? fun e => e.id == id with
  | some e => .ok e
  | none => .error (.unknownBackend id)

def describe (r : Registry) : String :=
  let listed (ids : List String) := "[" ++ Text.join ", " (ids.map Json.quote) ++ "]"
  "GeneratorRegistry \x7b backends: " ++ listed (r.backends.map (·.id)) ++ ", models: " ++
    listed (r.emitters.map (·.id)) ++ " \x7d"

end Registry

end TypedClients
