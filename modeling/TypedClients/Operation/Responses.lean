import TypedClients.Operation.Record
import TypedClients.Types.Translate

namespace TypedClients

/-- A number of at most 16 bits, with an optional plus sign. -/
def statusCode? (status : String) : Option Nat :=
  let digits := match status.toList with
    | '+' :: rest => rest
    | cs => cs
  if digits.isEmpty || !digits.all Char.isDigit then none
  else
    let n := digits.foldl (fun acc c => acc * 10 + (c.toNat - 48)) 0
    if n < Nat.pow 2 16 then some n else none

def isSuccessStatus (status : String) : Bool :=
  Text.equalIgnoringCase status "2xx" || (statusCode? status).any fun n => 200 ≤ n && n < 300

def schemaType (s : Option SchemaRef) : TypeExpr :=
  match s with
  | some s => SchemaRef.typeExpr s
  | none => .any

/-- One variant for each content type; a response without content has a single void one. -/
def responseVariants (operation status : String) (r : Response) : List Variant :=
  let description := if r.description == "" then none else some r.description
  if r.content.isEmpty then
    [{ status, contentType := "", type := .void, typeName := Name.ofResponse operation status none,
       schema := none, description }]
  else
    r.content.map fun (contentType, media) =>
      let suffix := if 1 < r.content.length then some (Name.contentTypeSuffix contentType) else none
      { status, contentType, type := schemaType media.schema,
        typeName := Name.ofResponse operation status suffix, schema := media.schema, description }

def fallbackVariant (operation : String) : Variant where
  status := "default"
  contentType := ""
  type := .any
  typeName := Name.ofResponse operation "default" none
  schema := none
  description := none

/-- `default` is a success only when no status of that family is declared. Without any success an
unknown one stands in. -/
def Responses.build (operation : String) (responses : List (String × Referenced Response)) :
    Responses :=
  let declared := responses.any fun (status, _) => isSuccessStatus status
  let succeeds (status : String) : Bool :=
    isSuccessStatus status || (status == "default" && !declared)
  let variants := responses.flatMap fun (status, r) =>
    match r with
    | .item r => responseVariants operation status r
    | .ref _ => []
  let success := variants.filter fun v => succeeds v.status
  { success := if success.isEmpty then [fallbackVariant operation] else success
    errors := variants.filter fun v => !succeeds v.status }

end TypedClients
