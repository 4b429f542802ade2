import TypedClients.Keyed
import TypedClients.Output.Import

namespace TypedClients

structure ModelEntry where
  name : String
  path : String
  constants : List String := []
  declaration : String
  imports : List String := []
deriving DecidableEq, Repr

namespace ModelEntry

def before (a b : ModelEntry) : Bool :=
  if a.path = b.path then !decide (b.name < a.name) else decide (a.path < b.path)

def text (e : ModelEntry) : String :=
  Text.join "\n" (e.constants ++ [Text.trimEndBlanks e.declaration])

end ModelEntry

structure ModelFile where
  path : String
  entries : List ModelEntry
deriving DecidableEq, Repr

def modelDependencies (importer : String) (typeOnly : Bool) (located : List (String × String)) :
    List Dependency :=
  let specifiers := Names.ofList (located.map fun (_, path) => relativeSpecifier importer path)
  specifiers.map fun specifier => {
    specifier
    bindings := (located.filter fun (_, path) => relativeSpecifier importer path == specifier).map
      fun (name, _) => { name, typeOnly } }

def located (locations : List (String × String)) (names : List String) : List (String × String) :=
  names.filterMap fun n => (Keyed.find? n locations).map fun path => (n, path)

namespace ModelFile

def defined (f : ModelFile) : List String := Names.ofList (f.entries.map (·.name))

def external (f : ModelFile) : List String :=
  Names.ofList ((f.entries.flatMap (·.imports)).filter fun n => !f.defined.contains n)

def dependencies (f : ModelFile) (locations : List (String × String)) (typeOnly : Bool) :
    List Dependency :=
  modelDependencies f.path typeOnly (located locations f.external)

def body (f : ModelFile) : String := Text.join "\n\n" (f.entries.map ModelEntry.text)

/-- A file takes the path of its first entry. -/
def ofEntries (entries : List ModelEntry) : ModelFile :=
  let sorted := entries.mergeSort ModelEntry.before
  ⟨(sorted.head?.map (·.path)).getD "", sorted⟩

def before (a b : ModelFile) : Bool := !decide (b.path < a.path)

/-- Entries whose paths differ only in case share a file. -/
def assemble (entries : List ModelEntry) : List ModelFile :=
  let keys := Names.ofList (entries.map fun e => Text.lower e.path)
  let files := keys.map fun key => ofEntries (entries.filter fun e => Text.lower e.path == key)
  files.mergeSort before

end ModelFile

/-- From declared names to the paths of their files. Of several files the last one counts. -/
def locate (files : List ModelFile) : List (String × String) :=
  Keyed.ofList (files.flatMap fun f => f.entries.map fun e => (e.name, f.path))

end TypedClients
