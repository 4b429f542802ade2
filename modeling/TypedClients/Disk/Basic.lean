import TypedClients.Disk.Path
import TypedClients.Output.Index
import TypedClients.Output.Page

namespace TypedClients

inductive Found where
  | missing
  | unreadable (reason : String)
  | text (content : String)
deriving DecidableEq, Repr

structure Disk (m : Type → Type) where
  read : String → m Found
  createDirectories : String → m (Option String)
  write : String → String → m (Option String)

inductive DiskError where
  | write (path reason : String)
  | read (path reason : String)
deriving DecidableEq, Repr

namespace DiskError

def reason : DiskError → String
  | .write _ r => r
  | .read _ r => r

def message : DiskError → String
  | .write p r => "failed to write " ++ p ++ ": " ++ r
  | .read p r => "failed to read " ++ p ++ ": " ++ r

end DiskError

namespace Disk

variable {m : Type → Type} [Monad m]

def orFail (path : String) (failure : Option String) : Except DiskError Unit :=
  match failure with
  | some reason => .error (.write path reason)
  | none => .ok ()

def ensureParent (d : Disk m) (path : String) : m (Except DiskError Unit) :=
  match Path.parent? path with
  | some parent => orFail parent <$> d.createDirectories parent
  | none => pure (.ok ())

def writeFile (d : Disk m) (root : String) (f : GeneratedFile) : m (Except DiskError Unit) := do
  let path := Path.join root f.path
  match ← d.ensureParent path with
  | .error e => return .error e
  | .ok () => return orFail path (← d.write path f.content)

def writeFiles (d : Disk m) (root : String) : List GeneratedFile → m (Except DiskError Unit)
  | [] => pure (.ok ())
  | f :: rest => do
    match ← d.writeFile root f with
    | .error e => return .error e
    | .ok () => d.writeFiles root rest

def existingIndex (d : Disk m) (path : String) (incremental : Bool) :
    m (Except DiskError (Option String)) := do
  if incremental then
    match ← d.read path with
    | .missing => return .ok none
    | .unreadable reason => return .error (.read path reason)
    | .text content => return .ok (some content)
  else return .ok none

/-- An incremental index keeps the lines that are there. -/
def writeIndex (d : Disk m) (root : String) (index : IndexFile) (incremental : Bool) :
    m (Except DiskError Unit) := do
  match ← d.existingIndex (Path.join root index.path) incremental with
  | .error e => return .error e
  | .ok existing => d.writeFile root ⟨index.path, mergeIndex existing index.lines⟩

def writeIndexes (d : Disk m) (root : String) (incremental : Bool) :
    List IndexFile → m (Except DiskError Unit)
  | [] => pure (.ok ())
  | index :: rest => do
    match ← d.writeIndex root index incremental with
    | .error e => return .error e
    | .ok () => d.writeIndexes root incremental rest

end Disk

end TypedClients
