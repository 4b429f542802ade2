import TypedClients.Text.Cut

namespace TypedClients.Zod

inductive Generation where
  | third
  | fourth
deriving DecidableEq, Repr

inductive Floor where
  | any
  | release (major minor patch : Nat)
  | unbounded
deriving DecidableEq, Repr

def releasePart? (part : String) : Option Nat :=
  let digits := part.toList.takeWhile Char.isDigit
  let n := digits.foldl (fun acc c => acc * 10 + (c.toNat - 48)) 0
  if digits.isEmpty || Nat.pow 2 64 ≤ n then none else some n

def isComparator (c : Char) : Bool := c == '>' || c == '=' || c == '^' || c == '~'

/-- Missing and non-numeric parts behind the first count as zero. -/
def comparatorFloor (comparator : String) : Floor :=
  let release := String.ofList (Text.trimStart isComparator comparator.toList)
  let release := (Text.afterLead? "v" release).getD release
  let parts := (Text.splitAt '.' release).map releasePart?
  let part (i : Nat) := (parts[i]?.getD none).getD 0
  match parts.head?.getD none with
  | some major => .release major (part 1) (part 2)
  | none => .any

/-- Upper bounds are passed over; the first other comparator decides. -/
def floorOfComparators : List String → Floor
  | [] => .unbounded
  | c :: rest =>
    if c = "*" ∨ c = "latest" ∨ c = "^" ∨ c = "~" then .any
    else if Text.hasLead "<" c then floorOfComparators rest
    else comparatorFloor c

/-- Only the first alternative of a range counts. -/
def Floor.ofRange (range : String) : Floor :=
  let range := Text.trim range
  if Text.hasLead "catalog:" range then .any
  else
    let range := ((Text.afterLead? "workspace:" range).map Text.trim).getD range
    match Text.fields (Text.upTo "||" range) with
    | [] => .any
    | comparators => floorOfComparators comparators

def satisfies (range : String) (major minor patch : Nat) : Bool :=
  match Floor.ofRange range with
  | .any => true
  | .release a b c => major < a || (major == a && (minor < b || (minor == b && patch ≤ c)))
  | .unbounded => false

def Generation.ofRange : Option String → Generation
  | some range => if satisfies range 4 0 0 then .fourth else .third
  | none => .third

end TypedClients.Zod
