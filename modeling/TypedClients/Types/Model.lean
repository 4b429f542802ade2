import TypedClients.Types.Translate

namespace TypedClients

structure ModelDiscriminator where
  propertyName : String
  mapping : List (String × String)

inductive ModelBody where
  | object (fields : List FieldDecl) (extra : Option TypeExpr)
  | enumeration (values : List Json) (nullable : Bool)
  | union (variants : List TypeExpr) (discriminator : Option ModelDiscriminator)
  | alias (target : TypeExpr)

structure Model where
  name : Name
  description : Option String
  body : ModelBody

def TypeName.isScalar (t : TypeName) : Bool := t != .array && t != .object

def Discriminator.toModel (d : Discriminator) : ModelDiscriminator :=
  ⟨d.propertyName, d.mapping.map fun (value, target) => (value, refTypeName target)⟩

namespace Schema

def isInterfaceLike (s : Schema) : Bool :=
  (s.type.isNone || s.type == some (.single .object)) && !s.nullable.getD false

def extraType (s : Schema) : Option TypeExpr :=
  match s.additionalProperties with
  | some (.schema a) => some (SchemaRef.typeExpr a)
  | some (.allowed true) => some .any
  | _ => none

def modelBody (s : Schema) : ModelBody :=
  let members := if s.oneOf.isEmpty then s.anyOf else s.oneOf
  if !s.enumValues.isEmpty && s.type.all (fun t => t.names.all TypeName.isScalar) then
    .enumeration (s.enumValues.filter fun v => !v.isNull)
      (s.isNullable || s.enumValues.any Json.isNull)
  else if !members.isEmpty then
    let variants := members.map SchemaRef.typeExpr
    .union (if s.isNullable && !TypeExpr.null.isIn variants then variants ++ [.null] else variants)
      (s.discriminator.map Discriminator.toModel)
  else if s.isInterfaceLike && !s.allOf.isEmpty && !s.allOf.any Referenced.isRef then
    .object (insertFields (mergeMembers [] s.allOf) s.fields) none
  else if s.isInterfaceLike && s.allOf.isEmpty && !s.properties.isEmpty then
    .object s.fields s.extraType
  else .alias s.typeExpr

end Schema

namespace Model

def ofSchema (name : String) : SchemaRef → Model
  | .ref path => ⟨Name.ofText name, none, .alias (.ref (refTypeName path))⟩
  | .item s => ⟨Name.ofText name, s.description, s.modelBody⟩

def refs (m : Model) : List String :=
  Names.ofList (match m.body with
    | .object fields extra =>
      (fields.flatMap fun f => f.type.refs) ++ (extra.map TypeExpr.refs).getD []
    | .union variants _ => variants.flatMap TypeExpr.refs
    | .alias target => target.refs
    | .enumeration _ _ => [])

end Model

end TypedClients
