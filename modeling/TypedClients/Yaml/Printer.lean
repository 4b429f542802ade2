import TypedClients.Yaml.Scalar
import TypedClients.Json.Printer

namespace TypedClients.Yaml

inductive Style where
  | plain
  | single
  | double
  | literal
deriving DecidableEq, Repr

def truthWords : List String :=
  ["y", "Y", "yes", "Yes", "YES", "n", "N", "no", "No", "NO", "true", "True", "TRUE", "false",
   "False", "FALSE", "on", "On", "ON", "off", "Off", "OFF"]

/-- The style in which a text would be read back as a text, special characters apart. -/
def wantedStyle (s : String) : Style :=
  if truthWords.contains s then .single
  else if Text.hasChar '\n' s then .literal
  else match plainDatum? s with
    | some (.text _) => if isPaddedDigits s.toList then .single else .plain
    | _ => .single

def isPrintable (c : Char) : Bool :=
  c == '\n' || (32 ≤ c.toNat && c.toNat ≤ 126) || (0xA0 ≤ c.toNat && c.toNat ≤ 0xD7FF) ||
    (0xE000 ≤ c.toNat && c.toNat ≤ 0xFFFD && c.toNat != 0xFEFF)

def separates (c : Char) : Bool := isSpaceOrTab c || isBreak c || c.toNat == 0

def endsWord (rest : List Char) : Bool := rest.head?.all separates

def leadIndicator : List Char → Bool
  | [] => false
  | c :: rest =>
    "#,[]\x7b\x7d&*!|>'\"%@\x60".toList.contains c ||
      ((c == '?' || c == ':' || c == '-') && endsWord rest)

def innerIndicator (previous : Char) : List Char → Bool
  | [] => false
  | c :: rest =>
    (c == ':' && endsWord rest) || (c == '#' && separates previous) || innerIndicator c rest

def isMarker (cs : List Char) : Bool :=
  ['-', '-', '-'].isPrefixOf cs || ['.', '.', '.'].isPrefixOf cs

def hasIndicator (cs : List Char) : Bool :=
  isMarker cs || leadIndicator cs ||
    match cs with
    | [] => false
    | c :: rest => innerIndicator c rest

def adjoins (p q : Char → Bool) : List Char → Bool
  | a :: b :: rest => (p a && q b) || adjoins p q (b :: rest)
  | _ => false

def isSpace (c : Char) : Bool := c == ' '

def mixesBreaks (cs : List Char) : Bool := adjoins isBreak isSpace cs || adjoins isSpace isBreak cs

def allowsPlain (cs : List Char) : Bool :=
  cs.all isPrintable && !cs.any isBreak && !cs.head?.any isSpace && !cs.getLast?.any isSpace &&
    !hasIndicator cs

def allowsSingle (cs : List Char) : Bool := cs.all isPrintable && !mixesBreaks cs

def allowsLiteral (cs : List Char) : Bool :=
  cs.all isPrintable && !cs.getLast?.any isSpace && !adjoins isSpace isBreak cs

def styleOf (s : String) : Style :=
  let quoted : Style := if allowsSingle s.toList then .single else .double
  match wantedStyle s with
  | .plain => if allowsPlain s.toList then .plain else quoted
  | .literal => if allowsLiteral s.toList then .literal else .double
  | _ => quoted

def singleText (s : String) : String := "'" ++ Text.replace "'" "''" s ++ "'"

def capitalHex (digits n : Nat) : List Char :=
  let ds := (Nat.toDigits 16 n).map Char.toUpper
  List.replicate (digits - ds.length) '0' ++ ds

def shortEscapes : List (Nat × Char) :=
  [(0, '0'), (7, 'a'), (8, 'b'), (9, 't'), (10, 'n'), (11, 'v'), (12, 'f'), (13, 'r'), (27, 'e'),
   (34, '"'), (92, '\\'), (0x85, 'N'), (0xA0, '_'), (0x2028, 'L'), (0x2029, 'P')]

def escapeCode (c : Char) : List Char :=
  match shortEscapes.lookup c.toNat with
  | some name => [name]
  | none =>
    if c.toNat ≤ 0xFF then 'x' :: capitalHex 2 c.toNat
    else if c.toNat ≤ 0xFFFF then 'u' :: capitalHex 4 c.toNat
    else 'U' :: capitalHex 8 c.toNat

def doubleChar (c : Char) : List Char :=
  if !isPrintable c || isBreak c || c == '"' || c == '\\' then '\\' :: escapeCode c else [c]

def doubleText (s : String) : String := "\"" ++ String.ofList (s.toList.flatMap doubleChar) ++ "\""

/-- What follows the bar: an indentation when the text begins with a blank, and how the end is
cut. -/
def literalHints (cs : List Char) : String :=
  let blank := if cs.head?.any fun c => isSpace c || isBreak c then "2" else ""
  let ending := match cs.reverse with
    | [] => "-"
    | [c] => if isBreak c then "+" else "-"
    | c :: d :: _ => if !isBreak c then "-" else if isBreak d then "+" else ""
  blank ++ ending

def literalLines (indent : Nat) (fresh : Bool) : List Char → List Char
  | [] => if fresh then [] else ['\n']
  | c :: rest =>
    if isBreak c then c :: literalLines indent true rest
    else (if fresh then List.replicate indent ' ' else []) ++ c :: literalLines indent false rest

def scalarLine (indent : Nat) (s : String) : String :=
  match styleOf s with
  | .plain => s ++ "\n"
  | .single => singleText s ++ "\n"
  | .double => doubleText s ++ "\n"
  | .literal =>
    "|" ++ literalHints s.toList ++ "\n" ++ String.ofList (literalLines indent true s.toList)

mutual

/-- What follows a key. Lists are not indented against the key. -/
def writeValue (indent : Nat) : Json → String
  | .array [] => " []\n"
  | .array items => "\n" ++ writeItems indent items
  | .object [] => " \x7b\x7d\n"
  | .object fields => "\n" ++ writeFields (indent + 2) true fields
  | .null => " null\n"
  | .bool b => if b then " true\n" else " false\n"
  | .number n => " " ++ n.write ++ "\n"
  | .text s => " " ++ scalarLine (indent + 2) s

def writeItems (indent : Nat) : List Json → String
  | [] => ""
  | item :: rest =>
    String.ofList (List.replicate indent ' ') ++ "-" ++
      (match item with
        | .object (f :: fields) => " " ++ writeFields (indent + 2) false (f :: fields)
        | item => writeValue indent item) ++
      writeItems indent rest

/-- The first field may stand behind the mark of an item. -/
def writeFields (indent : Nat) (indentFirst : Bool) : List (String × Json) → String
  | [] => ""
  | (key, value) :: rest =>
    (if indentFirst then String.ofList (List.replicate indent ' ') else "") ++ key ++ ":" ++
      writeValue indent value ++ writeFields indent true rest

end

def write : Json → String
  | .object (f :: fields) => writeFields 0 true (f :: fields)
  | .array (item :: items) => writeItems 0 (item :: items)
  | v => String.ofList ((writeValue 0 v).toList.drop 1)

end TypedClients.Yaml
