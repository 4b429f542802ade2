import TypedClients.Document.Walk
import TypedClients.Name
import TypedClients.Types.TypeExpr

namespace TypedClients

structure FieldDecl where
  name : String
  type : TypeExpr
  required : Bool
  readOnly : Bool
  description : Option String

/-- The identifier of the model that a reference names; a reference that names none goes by its last
segment. -/
def refTypeName (path : String) : String :=
  let name := (Pointer.schemaName? path).getD (((Text.splitAt '/' path).getLast?).getD "Unknown")
  (Name.ofText name).pascal

def constType : Json → TypeExpr
  | .text s => .literal s
  | .bool _ => .boolean
  | .number _ => .number
  | .null => .null
  | _ => .any

def enumType (values : List Json) : TypeExpr :=
  match TypeExpr.distinct (values.map constType) with
  | [t] => t
  | ts => .union ts

def stringType (format : Option String) : TypeExpr :=
  match format with
  | some "date-time" => .dateTime
  | some "date" => .dateTime
  | some "binary" => .binary
  | _ => .string

def inlineFields (fields : List FieldDecl) : TypeExpr :=
  .object (fields.map fun f => (f.name, f.type, f.required))

/-- A field that comes again keeps its first place and takes its last definition. -/
def insertField (f : FieldDecl) : List FieldDecl → List FieldDecl
  | [] => [f]
  | g :: rest => if g.name = f.name then f :: rest else g :: insertField f rest

def insertFields (fields more : List FieldDecl) : List FieldDecl :=
  more.foldl (fun acc f => insertField f acc) fields

def Referenced.isRef {α : Type} : Referenced α → Bool
  | .ref _ => true
  | .item _ => false

def nonNull (names : List TypeName) : List TypeName := names.filter (· != .null)

mutual

def SchemaRef.typeExpr (r : SchemaRef) : TypeExpr :=
  match r with
  | .ref path => .ref (refTypeName path)
  | .item s => s.typeExpr
termination_by (sizeOf r, 0)
decreasing_by
  exact Prod.Lex.left _ _ (by simp only [Referenced.item.sizeOf_spec]; omega)

def Schema.typeExpr (s : Schema) : TypeExpr :=
  if s.nullable = some true then s.baseType.withNull else s.baseType
termination_by (sizeOf s, 5)
decreasing_by all_goals exact Prod.Lex.right _ (by omega)

/-- The type without regard to the keyword that admits null. -/
def Schema.baseType (s : Schema) : TypeExpr :=
  if !s.oneOf.isEmpty then .union (s.oneOf.attach.map fun m => SchemaRef.typeExpr m.1)
  else if !s.anyOf.isEmpty then .union (s.anyOf.attach.map fun m => SchemaRef.typeExpr m.1)
  else if !s.allOf.isEmpty then s.allOfType
  else if !s.enumValues.isEmpty then enumType s.enumValues
  else match s.constValue, s.type with
    | some v, _ => constType v
    | none, some (.single t) => s.namedType t
    | none, some (.several ts) =>
      TypeExpr.ofMembers .any
        ((nonNull ts).map s.namedType ++ if ts.contains .null then [.null] else [])
    | none, none =>
      if !s.properties.isEmpty || s.additionalProperties.isSome then s.objectType
      else if s.items.isSome then s.namedType .array
      else .any
termination_by (sizeOf s, 4)
decreasing_by
  · exact Prod.Lex.left _ _ (Nat.lt_trans (List.sizeOf_lt_of_mem m.2) s.sizeOf_oneOf)
  · exact Prod.Lex.left _ _ (Nat.lt_trans (List.sizeOf_lt_of_mem m.2) s.sizeOf_anyOf)
  all_goals exact Prod.Lex.right _ (by omega)

def Schema.namedType (s : Schema) (t : TypeName) : TypeExpr :=
  match t with
  | .string => stringType s.format
  | .number => .number
  | .integer => .integer
  | .boolean => .boolean
  | .null => .null
  | .array => .array (match _h : s.items with
    | some i => SchemaRef.typeExpr i
    | none => .any)
  | .object => s.objectType
termination_by (sizeOf s, 3)
decreasing_by
  · refine Prod.Lex.left _ _ (Nat.lt_trans ?_ s.sizeOf_items)
    rw [_h]
    simp
  · exact Prod.Lex.right _ (by omega)

def Schema.objectType (s : Schema) : TypeExpr :=
  if s.properties.isEmpty then
    match _h : s.additionalProperties with
    | some (.schema a) => .map (SchemaRef.typeExpr a)
    | some (.allowed true) => .map .any
    | _ => .object []
  else inlineFields s.fields
termination_by (sizeOf s, 2)
decreasing_by
  · refine Prod.Lex.left _ _ (Nat.lt_trans ?_ s.sizeOf_additionalProperties)
    rw [_h]
    simp only [Option.some.sizeOf_spec, Additional.schema.sizeOf_spec]
    omega
  · exact Prod.Lex.right _ (by omega)

def Schema.fields (s : Schema) : List FieldDecl :=
  s.properties.attach.map fun p => {
    name := p.1.1
    type := SchemaRef.typeExpr p.1.2
    required := s.required.contains p.1.1
    readOnly := (p.1.2.item?.bind (·.readOnly)).getD false
    description := p.1.2.item?.bind (·.description) }
termination_by (sizeOf s, 1)
decreasing_by
  exact Prod.Lex.left _ _ (Nat.lt_trans (sizeOf_lt_of_mem_table p.2) s.sizeOf_properties)

/-- Members that are all given in place become one object. Otherwise each stays a part of its own.
-/
def Schema.allOfType (s : Schema) : TypeExpr :=
  match _h : s.allOf, s.properties.isEmpty with
  | [m], true => SchemaRef.typeExpr m
  | _, _ =>
    if !s.allOf.any Referenced.isRef then
      inlineFields (insertFields (mergeMembers [] s.allOf) s.fields)
    else
      let parts := s.allOf.attach.map fun m => memberType m.1
      .intersection (parts ++ if s.properties.isEmpty then [] else [inlineFields s.fields])
termination_by (sizeOf s, 3)
decreasing_by
  · refine Prod.Lex.left _ _ (Nat.lt_trans ?_ s.sizeOf_allOf)
    rw [_h]
    simp only [List.cons.sizeOf_spec]
    omega
  · exact Prod.Lex.left _ _ s.sizeOf_allOf
  · exact Prod.Lex.right _ (by omega)
  · exact Prod.Lex.left _ _ (Nat.lt_trans (List.sizeOf_lt_of_mem m.2) s.sizeOf_allOf)
  · exact Prod.Lex.right _ (by omega)

/-- A part of an intersection; one with properties of its own shows these only. -/
def memberType (m : SchemaRef) : TypeExpr :=
  match m with
  | .ref path => .ref (refTypeName path)
  | .item s => if s.properties.isEmpty then s.typeExpr else inlineFields s.fields
termination_by (sizeOf m, 0)
decreasing_by
  all_goals exact Prod.Lex.left _ _ (by simp only [Referenced.item.sizeOf_spec]; omega)

def mergeMembers (fields : List FieldDecl) (members : List SchemaRef) : List FieldDecl :=
  match members with
  | [] => fields
  | .ref _ :: rest => mergeMembers fields rest
  | .item s :: rest =>
    mergeMembers (insertFields (insertFields fields s.fields) (mergeMembers [] s.allOf)) rest
termination_by (sizeOf members, 0)
decreasing_by
  · exact Prod.Lex.left _ _ (by simp only [List.cons.sizeOf_spec]; omega)
  · refine Prod.Lex.left _ _ ?_
    simp only [List.cons.sizeOf_spec, Referenced.item.sizeOf_spec]
    omega
  · refine Prod.Lex.left _ _ (Nat.lt_trans s.sizeOf_allOf ?_)
    simp only [List.cons.sizeOf_spec, Referenced.item.sizeOf_spec]
    omega
  · exact Prod.Lex.left _ _ (by simp only [List.cons.sizeOf_spec]; omega)

end

end TypedClients
