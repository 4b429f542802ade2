import TypedClients.Json.Value
import TypedClients.Text.Cut

namespace TypedClients

/-- Positional from `1e-5` up to `1e16`, always with a fraction digit. -/
def Number.layout : Decimal.Layout := ⟨some (-5), some 16, true⟩

def Number.write : Number → String
  | .int i => if i < 0 then "-" ++ Decimal.digitText i.natAbs else Decimal.digitText i.natAbs
  | .double d => Number.layout.write d

namespace Json

def hexDigit (n : Nat) : Char := if n < 10 then Char.ofNat (48 + n) else Char.ofNat (87 + n)

def escapeChar (c : Char) : List Char :=
  if c == '"' then ['\\', '"']
  else if c == '\\' then ['\\', '\\']
  else if c == '\n' then ['\\', 'n']
  else if c == '\r' then ['\\', 'r']
  else if c == '\t' then ['\\', 't']
  else if c.toNat == 8 then ['\\', 'b']
  else if c.toNat == 12 then ['\\', 'f']
  else if c.toNat < 32 then ['\\', 'u', '0', '0', hexDigit (c.toNat / 16), hexDigit (c.toNat % 16)]
  else [c]

def quote (s : String) : String := "\"" ++ String.ofList (s.toList.flatMap escapeChar) ++ "\""

mutual

def compact : Json → String
  | .null => "null"
  | .bool b => if b then "true" else "false"
  | .number n => n.write
  | .text s => quote s
  | .array items => "[" ++ ",".intercalate (compactItems items) ++ "]"
  | .object fields => "\x7b" ++ ",".intercalate (compactFields fields) ++ "\x7d"

def compactItems : List Json → List String
  | [] => []
  | item :: rest => compact item :: compactItems rest

def compactFields : List (String × Json) → List String
  | [] => []
  | (key, value) :: rest => (quote key ++ ":" ++ compact value) :: compactFields rest

end

mutual

/-- One item a line, two blanks a level; what is empty stays on its line. -/
def pretty (depth : Nat) : Json → String
  | .array [] => "[]"
  | .array items =>
    "[\n" ++ ",\n".intercalate (prettyItems (depth + 1) items) ++ "\n" ++
      Text.indentation depth ++ "]"
  | .object [] => "\x7b\x7d"
  | .object fields =>
    "\x7b\n" ++ ",\n".intercalate (prettyFields (depth + 1) fields) ++ "\n" ++
      Text.indentation depth ++ "\x7d"
  | .null => "null"
  | .bool b => if b then "true" else "false"
  | .number n => n.write
  | .text s => quote s

def prettyItems (depth : Nat) : List Json → List String
  | [] => []
  | item :: rest => (Text.indentation depth ++ pretty depth item) :: prettyItems depth rest

def prettyFields (depth : Nat) : List (String × Json) → List String
  | [] => []
  | (key, value) :: rest =>
    (Text.indentation depth ++ quote key ++ ": " ++ pretty depth value) :: prettyFields depth rest

end

end Json

end TypedClients
