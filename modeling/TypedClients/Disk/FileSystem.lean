import TypedClients.Disk.Basic
import TypedClients.Keyed

namespace TypedClients

inductive Content where
  | text (s : String)
  | bytes (data : List Nat)
deriving DecidableEq, Repr

inductive Entry where
  | directory
  | file (content : Content)
deriving DecidableEq, Repr

structure FileSystem where
  entries : List (String × Entry) := []
deriving Repr

namespace FileSystem

/-- The steps from the working directory. Steps upwards come first. -/
abbrev Place := List String

def placeText (place : Place) : String := Text.join "/" place

/-- The working directory and what it is in are always there. -/
def entry? (fs : FileSystem) (place : Place) : Option Entry :=
  if place.all (· == "..") || place == ["/"] then some .directory
  else Keyed.find? (placeText place) fs.entries

def isDirectory (fs : FileSystem) (place : Place) : Bool := fs.entry? place == some .directory

def put (fs : FileSystem) (place : Place) (entry : Entry) : FileSystem :=
  ⟨Keyed.insert (placeText place) entry fs.entries⟩

def up (place : Place) : Place :=
  if place == ["/"] then place
  else if place.getLast?.all (· == "..") then place ++ [".."] else place.dropLast

def step (place : Place) (part : String) : Place :=
  if Path.isIdle part then place else if part = ".." then up place else place ++ [part]

def walk? (fs : FileSystem) (place : Place) : List String → Option Place
  | [] => some place
  | part :: rest => if fs.isDirectory place then fs.walk? (step place part) rest else none

def start (path : String) : Place := if Text.hasLead "/" path then ["/"] else []

def place? (fs : FileSystem) (path : String) : Option Place :=
  if path = "" then none else fs.walk? (start path) (Text.splitAt '/' path)

def lookup? (fs : FileSystem) (path : String) : Option Entry := (fs.place? path).bind fs.entry?

/-- Creates the directories that are missing on the way; a file on the way stops it. -/
def createFrom (fs : FileSystem) (place : Place) : List String → FileSystem × Option String
  | [] => (fs, none)
  | part :: rest =>
    let next := step place part
    match fs.entry? next with
    | some .directory => fs.createFrom next rest
    | some (.file _) => (fs, some "not a directory")
    | none => (fs.put next .directory).createFrom next rest

def createDirectories (path : String) (fs : FileSystem) : FileSystem × Option String :=
  fs.createFrom (start path) (Text.splitAt '/' path)

def write (path content : String) (fs : FileSystem) : FileSystem × Option String :=
  match fs.place? path with
  | none => (fs, some "no such file or directory")
  | some place =>
    if fs.isDirectory place then (fs, some "is a directory")
    else (fs.put place (.file (.text content)), none)

def read (path : String) (fs : FileSystem) : Found :=
  match fs.lookup? path with
  | none => .missing
  | some .directory => .unreadable "is a directory"
  | some (.file (.bytes _)) => .unreadable "stream did not contain valid UTF-8"
  | some (.file (.text s)) => .text s

def disk : Disk (StateM FileSystem) where
  read path fs := (fs.read path, fs)
  createDirectories path fs := let (fs, failure) := fs.createDirectories path; (failure, fs)
  write path content fs := let (fs, failure) := fs.write path content; (failure, fs)

end FileSystem

end TypedClients
