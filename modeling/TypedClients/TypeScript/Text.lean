import TypedClients.Types.TypeExpr
import TypedClients.Text.Cut

namespace TypedClients.TypeScript

def escapeComment (s : String) : String := Text.replace "*/" "*\\/" s

def escapeQuotesChars : List Char → List Char
  | [] => []
  | c :: rest =>
    if c.toNat = 39 then '\\' :: c :: escapeQuotesChars rest else c :: escapeQuotesChars rest

def escapeQuotes (s : String) : String := String.ofList (escapeQuotesChars s.toList)

def singleQuoted (s : String) : String := "'" ++ escapeQuotes s ++ "'"

/-- The text of a literal type: backslashes are escaped as well. -/
def literal (s : String) : String := singleQuoted (Text.replace "\\" "\\\\" s)

def isIdentifierStart (c : Char) : Bool := c.isAlpha || c == '_' || c == '$'

def isIdentifierRest (c : Char) : Bool := c.isAlphanum || c == '_' || c == '$'

def isIdentifier (s : String) : Bool :=
  match s.toList with
  | [] => false
  | c :: rest => isIdentifierStart c && rest.all isIdentifierRest

def propertyKey (name : String) : String := if isIdentifier name then name else singleQuoted name

end TypedClients.TypeScript

namespace TypedClients.TypeExpr

open TypeScript (propertyKey)

/-- Members of a union or an intersection that would otherwise fall apart. -/
def isCompound : TypeExpr → Bool
  | .union ts => 1 < ts.length
  | .intersection ts => 1 < ts.length
  | _ => false

def grouped (compound : Bool) (s : String) : String := if compound then "(" ++ s ++ ")" else s

mutual

def write : TypeExpr → String
  | .string => "string"
  | .dateTime => "string"
  | .number => "number"
  | .integer => "number"
  | .boolean => "boolean"
  | .null => "null"
  | .binary => "Blob"
  | .any => "unknown"
  | .void => "void"
  | .ref name => name
  | .literal s => TypeScript.literal s
  | .array t => grouped t.isCompound (write t) ++ "[]"
  | .map t => "Record<string, " ++ write t ++ ">"
  | .object [] => "Record<string, unknown>"
  | .object fields => "\x7b " ++ "; ".intercalate (writeFields fields) ++ " \x7d"
  | .union ts => " | ".intercalate (writeList ts)
  | .intersection ts => " & ".intercalate (writeGrouped ts)

def writeList : List TypeExpr → List String
  | [] => []
  | t :: rest => write t :: writeList rest

def writeGrouped : List TypeExpr → List String
  | [] => []
  | t :: rest => grouped t.isCompound (write t) :: writeGrouped rest

def writeFields : List (String × TypeExpr × Bool) → List String
  | [] => []
  | (name, t, required) :: rest =>
    (propertyKey name ++ (if required then "" else "?") ++ ": " ++ write t) :: writeFields rest

end

end TypedClients.TypeExpr
