import TypedClients.Text.Cut

namespace TypedClients

structure Binding where
  name : String
  alias? : Option String := none
  isDefault : Bool := false
  typeOnly : Bool := false
deriving DecidableEq, Repr

def Binding.localName (b : Binding) : String := b.alias?.getD b.name

structure Dependency where
  specifier : String
  bindings : List Binding
deriving DecidableEq, Repr

/-- A binding that comes again is type-only when it was and still is. -/
def addBinding (b : Binding) : List Binding → List Binding
  | [] => [b]
  | c :: rest =>
    if c.localName = b.localName then { c with typeOnly := c.typeOnly && b.typeOnly } :: rest
    else c :: addBinding b rest

def addBindings (known more : List Binding) : List Binding :=
  more.foldl (fun acc b => addBinding b acc) known

def addDependency (d : Dependency) : List Dependency → List Dependency
  | [] => [⟨d.specifier, addBindings [] d.bindings⟩]
  | e :: rest =>
    if e.specifier = d.specifier then
      { e with bindings := addBindings e.bindings d.bindings } :: rest
    else e :: addDependency d rest

/-- One dependency a module and one binding a local name, in the order in which they first came. -/
def mergeDependencies (ds : List Dependency) : List Dependency :=
  ds.foldl (fun acc d => addDependency d acc) []

namespace Dependency

def defaultBinding? (d : Dependency) : Option Binding := d.bindings.find? (·.isDefault)

def namedBindings (d : Dependency) : List Binding := d.bindings.filter fun b => !b.isDefault

def isTypeOnly (d : Dependency) : Bool :=
  d.defaultBinding?.isNone && !d.namedBindings.isEmpty && d.namedBindings.all (·.typeOnly)

def writeBinding (marked : Bool) (b : Binding) : String :=
  (if b.typeOnly && marked then "type " else "") ++
    match b.alias? with
    | some a => b.name ++ " as " ++ a
    | none => b.name

def write (d : Dependency) : String :=
  let keyword := if d.isTypeOnly then "import type" else "import"
  let names := d.namedBindings.map (writeBinding !d.isTypeOnly)
  let braced := "\x7b " ++ Text.join ", " names ++ " \x7d"
  let what := match d.defaultBinding? with
    | some b => if names.isEmpty then b.name else b.name ++ ", " ++ braced
    | none => braced
  keyword ++ " " ++ what ++ " from '" ++ d.specifier ++ "';"

end Dependency

def pathParts (path : String) : List String := Text.splitAt '/' path

def sharedLead : List String → List String → Nat
  | a :: as, b :: bs => if a = b then sharedLead as bs + 1 else 0
  | _, _ => 0

def moduleParts (path : String) : List String := pathParts ((Text.beforeTail? ".ts" path).getD path)

def relativeSpecifier (importer path : String) : String :=
  let directory := (pathParts importer).dropLast
  let parts := moduleParts path
  let shared := sharedLead directory parts.dropLast
  let ups := directory.length - shared
  let rest := Text.join "/" (parts.drop shared)
  if ups = 0 then "./" ++ rest else Text.join "" (List.replicate ups "../") ++ rest

end TypedClients
