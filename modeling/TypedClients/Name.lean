import TypedClients.Text.Words
import TypedClients.Text.Cut

namespace TypedClients

structure Name where
  source : String
  pascal : String
  camel : String
deriving DecidableEq, Repr

namespace Name

def guardDigit (cs : List Char) : List Char :=
  if cs.head?.any Char.isDigit then '_' :: cs else cs

/-- Whatever is neither letter nor digit only separates words. -/
def ofText (source : String) : Name :=
  if (Text.words source.toList).isEmpty then ⟨source, "Unnamed", "unnamed"⟩
  else ⟨source, String.ofList (guardDigit (Text.pascal source.toList)),
    String.ofList (guardDigit (Text.camel source.toList))⟩

def ofRoute (verb path : String) : String :=
  let segments := (Text.splitAt '/' path).map fun segment =>
    String.ofList (Text.trimEnd (· == '}') (Text.trimStart (· == '{') segment.toList))
  (ofText (Text.join "-" (verb :: segments.filter (· != "")))).camel

def essence (contentType : String) : String := Text.trim (Text.before ';' contentType)

def contentTypeSuffix (contentType : String) : String := (ofText (essence contentType)).pascal

/-- Without the underscores that a leading digit needs on its own. -/
def ofResponse (operation status : String) (suffix : Option String) : String :=
  let status := String.ofList (Text.trimStart (· == '_') (ofText status).pascal.toList)
  (ofText operation).pascal ++ status ++ suffix.getD ""

end Name

end TypedClients
