import TypedClients.TypeScript.Text
import TypedClients.Types.Model
import TypedClients.Json.Printer

namespace TypedClients.TypeScript

def nonEmpty? (s : Option String) : Option String := s.filter (· != "")

def descriptionComment (d : Option String) : String :=
  match nonEmpty? d with
  | some d => "/**\n * " ++ escapeComment d ++ "\n */\n"
  | none => ""

def fieldComment (d : Option String) : String :=
  match nonEmpty? d with
  | some d => "  /** " ++ escapeComment d ++ " */\n"
  | none => ""

def fieldLine (f : FieldDecl) : String :=
  fieldComment f.description ++ "  " ++ (if f.readOnly then "readonly " else "") ++
    propertyKey f.name ++ (if f.required then "" else "?") ++ ": " ++ f.type.write ++ ";\n"

def enumLiteral : Json → String
  | .text s => singleQuoted s
  | v => v.compact

def enumText (values : List Json) (nullable : Bool) : String :=
  Text.join " | " (values.map enumLiteral ++ if nullable then ["null"] else [])

def typeLine (name target : String) : String := "export type " ++ name ++ " = " ++ target ++ ";"

def declarationBody (name : String) : ModelBody → String
  | .object fields extra =>
    "export interface " ++ name ++ " \x7b\n" ++ Text.join "" (fields.map fieldLine) ++
      (match extra with
        | some t => "  [key: string]: " ++ t.write ++ ";\n"
        | none => "") ++ "\x7d"
  | .enumeration values nullable => typeLine name (enumText values nullable)
  | .union variants _ => typeLine name (Text.join " | " (variants.map TypeExpr.write))
  | .alias target => typeLine name target.write

def declaration (m : Model) : String :=
  descriptionComment m.description ++ declarationBody m.name.pascal m.body

end TypedClients.TypeScript
