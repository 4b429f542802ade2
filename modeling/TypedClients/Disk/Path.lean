import TypedClients.Text.Cut

namespace TypedClients.Path

/-- A path relative to a directory; an absolute path stands for itself. -/
def join (root path : String) : String :=
  if Text.hasLead "/" path || root = "" then path
  else if Text.hasTail "/" root then root ++ path
  else root ++ "/" ++ path

def isIdle (part : String) : Bool := part == "" || part == "."

def dropIdle : List String → List String
  | part :: next :: rest => if isIdle part then dropIdle (next :: rest) else part :: next :: rest
  | parts => parts

def reversedParts (path : String) : List String := dropIdle (Text.splitAt '/' path).reverse

def parent? (path : String) : Option String :=
  match reversedParts path with
  | [] => none
  | [part] => if part = "" then none else some ""
  | _ :: rest =>
    match dropIdle rest with
    | [""] => some "/"
    | parts => some (Text.join "/" parts.reverse)

def fileName? (path : String) : Option String :=
  (reversedParts path).head?.filter fun part => !isIdle part && part != ".."

/-- What stands behind the last point of a file's name, unless that is its first character. -/
def extension? (path : String) : Option String := do
  let name ← fileName? path
  match (Text.splitAt '.' name).reverse with
  | [] => none
  | [_] => none
  | [last, first] => if first = "" then none else some last
  | last :: _ => some last

end TypedClients.Path
