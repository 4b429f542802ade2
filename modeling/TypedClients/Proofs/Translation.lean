import TypedClients.Types.Model

namespace TypedClients

namespace TypeExpr

variable {t : TypeExpr} {ts : List TypeExpr}

theorem mem_of_distinct (h : t ∈ distinct ts) : t ∈ ts := by
  suffices grown : ∀ acc : List TypeExpr,
      t ∈ ts.foldl (fun acc t => if t.isIn acc then acc else acc ++ [t]) acc → t ∈ acc ∨ t ∈ ts from
    (grown [] h).resolve_left List.not_mem_nil
  clear h
  induction ts with
  | nil => exact fun _ h => .inl h
  | cons u rest ih =>
    intro acc h
    rcases ih _ h with earlier | later
    · dsimp only at earlier
      split at earlier
      · exact .inl earlier
      · rcases List.mem_append.mp earlier with earlier | here
        · exact .inl earlier
        · have same := List.mem_singleton.mp here
          exact .inr (same ▸ List.mem_cons_self)
    · exact .inr (List.mem_cons_of_mem _ later)

theorem mem_distinct (h : t ∈ ts) : ∃ u ∈ distinct ts, u = t ∨ u.same t = true := by
  have kept : ∀ (ts acc : List TypeExpr), ∀ u ∈ acc,
      u ∈ ts.foldl (fun acc t => if t.isIn acc then acc else acc ++ [t]) acc := by
    intro ts
    induction ts with
    | nil => exact fun _ _ mem => mem
    | cons v rest ih =>
      intro acc u mem
      refine ih _ u ?_
      dsimp only
      split
      · exact mem
      · exact List.mem_append_left _ mem
  obtain ⟨before, after, rfl⟩ := List.append_of_mem h
  rw [distinct, List.foldl_append, List.foldl_cons]
  generalize before.foldl (fun acc t => if t.isIn acc then acc else acc ++ [t]) [] = acc
  by_cases known : t.isIn acc = true
  · obtain ⟨u, mem, same⟩ := List.any_eq_true.mp known
    rw [if_pos known]
    exact ⟨u, kept after acc u mem, .inr same⟩
  · rw [if_neg known]
    exact ⟨t, kept after _ t (List.mem_append_right _ List.mem_cons_self), .inl rfl⟩

end TypeExpr

theorem SchemaRef.typeExpr_ref (path : String) :
    SchemaRef.typeExpr (.ref path) = .ref (refTypeName path) := by
  rw [SchemaRef.typeExpr]

theorem SchemaRef.typeExpr_item (s : Schema) : SchemaRef.typeExpr (.item s) = s.typeExpr := by
  rw [SchemaRef.typeExpr]

theorem memberType_ref (path : String) : memberType (.ref path) = .ref (refTypeName path) := by
  rw [memberType]

theorem memberType_item (s : Schema) : memberType (.item s) =
    if s.properties.isEmpty then s.typeExpr else inlineFields s.fields := by
  rw [memberType]

/-- The field that a property becomes. -/
def FieldDecl.ofProperty (required : List String) (p : String × SchemaRef) : FieldDecl where
  name := p.1
  type := p.2.typeExpr
  required := required.contains p.1
  readOnly := (p.2.item?.bind (·.readOnly)).getD false
  description := p.2.item?.bind (·.description)

namespace Schema

variable {s : Schema}

theorem fields_eq (s : Schema) : s.fields = s.properties.map (FieldDecl.ofProperty s.required) := by
  rw [fields]
  exact List.attach_map_val (f := FieldDecl.ofProperty s.required)

def plainType (s : Schema) : TypeExpr :=
  match s.type with
  | some (.single t) => s.namedType t
  | some (.several ts) =>
    TypeExpr.ofMembers .any
      ((nonNull ts).map s.namedType ++ if ts.contains .null then [.null] else [])
  | none =>
    if !s.properties.isEmpty || s.additionalProperties.isSome then s.objectType
    else if s.items.isSome then s.namedType .array
    else .any

def flatFields (s : Schema) : List FieldDecl := insertFields (mergeMembers [] s.allOf) s.fields

def conjuncts (s : Schema) : List TypeExpr :=
  s.allOf.map memberType ++ if s.properties.isEmpty then [] else [inlineFields s.fields]

inductive Conjoins (s : Schema) : TypeExpr → Prop where
  | single {m : SchemaRef} (members : s.allOf = [m]) (plain : s.properties = []) :
      Conjoins s m.typeExpr
  | flat (several : s.properties = [] → ∀ m, s.allOf ≠ [m])
      (inPlace : ∀ m ∈ s.allOf, m.isRef = false) : Conjoins s (inlineFields s.flatFields)
  | parts {m : SchemaRef} (listed : m ∈ s.allOf) (referring : m.isRef = true)
      (several : 1 < s.conjuncts.length) : Conjoins s (.intersection s.conjuncts)

inductive Gives (s : Schema) : TypeExpr → Prop where
  | oneOf (given : s.oneOf ≠ []) : Gives s (.union (s.oneOf.map SchemaRef.typeExpr))
  | anyOf (first : s.oneOf = []) (given : s.anyOf ≠ []) :
      Gives s (.union (s.anyOf.map SchemaRef.typeExpr))
  | allOf {t : TypeExpr} (first : s.oneOf = []) (second : s.anyOf = []) (given : s.allOf ≠ [])
      (form : s.Conjoins t) : Gives s t
  | enumeration (first : s.oneOf = []) (second : s.anyOf = []) (third : s.allOf = [])
      (given : s.enumValues ≠ []) : Gives s (enumType s.enumValues)
  | constant {v : Json} (first : s.oneOf = []) (second : s.anyOf = []) (third : s.allOf = [])
      (fourth : s.enumValues = []) (given : s.constValue = some v) : Gives s (constType v)
  | types (first : s.oneOf = []) (second : s.anyOf = []) (third : s.allOf = [])
      (fourth : s.enumValues = []) (fifth : s.constValue = none) : Gives s s.plainType

theorem conjuncts_eq (s : Schema) : s.conjuncts =
    (s.allOf.attach.map fun m => memberType m.1) ++
      if s.properties.isEmpty then [] else [inlineFields s.fields] := by
  rw [conjuncts, ← List.attach_map_val (f := memberType)]

theorem any_isRef_eq_false {ms : List SchemaRef} :
    ms.any Referenced.isRef = false ↔ ∀ m ∈ ms, m.isRef = false := by
  simp

theorem allOfType_conjoins (given : s.allOf ≠ []) : s.Conjoins s.allOfType := by
  rw [allOfType]
  split
  · rename_i m single plain
    exact .single single (List.isEmpty_iff.mp plain)
  · rename_i several
    have several : s.properties = [] → ∀ m, s.allOf ≠ [m] := fun plain m members =>
      several m members (List.isEmpty_iff.mpr plain)
    split
    · rename_i inPlace
      exact .flat several (any_isRef_eq_false.mp (by simpa using inPlace))
    · rename_i referring
      simp only [Bool.not_eq_true', Bool.not_eq_false, List.any_eq_true] at referring
      obtain ⟨m, listed, referring⟩ := referring
      dsimp only
      rw [← conjuncts_eq]
      refine .parts listed referring ?_
      rw [conjuncts]
      by_cases plain : s.properties = []
      · obtain ⟨first, rest, members⟩ := List.exists_cons_of_ne_nil given
        cases rest with
        | nil => exact absurd members (several plain first)
        | cons second rest => simp [members]
      · have := List.length_pos_of_mem listed
        simp [plain]
        omega

theorem baseType_gives (s : Schema) : s.Gives s.baseType := by
  rw [baseType]
  by_cases oneOf : s.oneOf = []
  case neg =>
    rw [if_pos (by simp [oneOf]), List.attach_map_val (f := SchemaRef.typeExpr)]
    exact .oneOf oneOf
  rw [if_neg (by simp [oneOf])]
  by_cases anyOf : s.anyOf = []
  case neg =>
    rw [if_pos (by simp [anyOf]), List.attach_map_val (f := SchemaRef.typeExpr)]
    exact .anyOf oneOf anyOf
  rw [if_neg (by simp [anyOf])]
  by_cases allOf : s.allOf = []
  case neg =>
    rw [if_pos (by simp [allOf])]
    exact .allOf oneOf anyOf allOf (allOfType_conjoins allOf)
  rw [if_neg (by simp [allOf])]
  by_cases enumValues : s.enumValues = []
  case neg =>
    rw [if_pos (by simp [enumValues])]
    exact .enumeration oneOf anyOf allOf enumValues
  rw [if_neg (by simp [enumValues])]
  cases constValue : s.constValue with
  | some v => exact .constant oneOf anyOf allOf enumValues constValue
  | none =>
    have types := Gives.types oneOf anyOf allOf enumValues constValue
    rw [plainType] at types
    cases type : s.type with
    | none => simpa only [type] using types
    | some names => cases names <;> simpa only [type] using types

theorem Conjoins.unique {t u : TypeExpr} (first : s.Conjoins t) (second : s.Conjoins u) :
    t = u := by
  cases first with
  | single members plain =>
    cases second with
    | single members' _ =>
      rw [members, List.cons.injEq] at members'
      rw [members'.1]
    | flat several _ => exact absurd members (several plain _)
    | parts _ _ several => simp [conjuncts, members, plain] at several
  | flat several inPlace =>
    cases second with
    | single members plain => exact absurd members (several plain _)
    | flat _ _ => rfl
    | parts listed referring _ => cases (inPlace _ listed).symm.trans referring
  | parts listed referring several =>
    cases second with
    | single members plain => simp [conjuncts, members, plain] at several
    | flat _ inPlace => cases (inPlace _ listed).symm.trans referring
    | parts _ _ _ => rfl

/-- One keyword decides, and the answer is what it gives. -/
theorem Gives.baseType_eq {t : TypeExpr} (h : s.Gives t) : s.baseType = t := by
  have gives := s.baseType_gives
  generalize s.baseType = u at gives ⊢
  -- two different keywords contradict each other, since each comes only after the ones before it
  cases h with
  | allOf _ _ _ form =>
    cases gives with
    | allOf _ _ _ form' => exact form'.unique form
    | _ => contradiction
  | constant _ _ _ _ given =>
    cases gives with
    | constant _ _ _ _ given' => rw [Option.some.inj (given.symm.trans given')]
    | types _ _ _ _ absent => cases given.symm.trans absent
    | _ => contradiction
  | types _ _ _ _ absent =>
    cases gives with
    | types => rfl
    | constant _ _ _ _ given => cases given.symm.trans absent
    | _ => contradiction
  | _ => cases gives <;> first | rfl | contradiction

def alternatives (s : Schema) : List SchemaRef := if s.oneOf.isEmpty then s.anyOf else s.oneOf

def ListsScalars (s : Schema) : Prop :=
  s.enumValues ≠ [] ∧ s.type.all (fun t => t.names.all TypeName.isScalar) = true

inductive Declares (s : Schema) : ModelBody → Prop where
  | enumeration (given : s.ListsScalars) : Declares s
      (.enumeration (s.enumValues.filter fun v => !v.isNull)
        (s.isNullable || s.enumValues.any Json.isNull))
  | union (first : ¬s.ListsScalars) (given : s.alternatives ≠ []) : Declares s
      (.union
        (if s.isNullable && !TypeExpr.null.isIn (s.alternatives.map SchemaRef.typeExpr) then
          s.alternatives.map SchemaRef.typeExpr ++ [.null]
        else s.alternatives.map SchemaRef.typeExpr)
        (s.discriminator.map Discriminator.toModel))
  | flat (first : ¬s.ListsScalars) (second : s.alternatives = [])
      (interface : s.isInterfaceLike = true) (given : s.allOf ≠ [])
      (inPlace : ∀ m ∈ s.allOf, m.isRef = false) : Declares s (.object s.flatFields none)
  | object (first : ¬s.ListsScalars) (second : s.alternatives = [])
      (interface : s.isInterfaceLike = true) (third : s.allOf = []) (given : s.properties ≠ []) :
      Declares s (.object s.fields s.extraType)
  | «alias» (first : ¬s.ListsScalars) (second : s.alternatives = [])
      (shapeless : s.isInterfaceLike = true → s.allOf = [] → s.properties = [])
      (referring : s.isInterfaceLike = true → s.allOf ≠ [] → ∃ m ∈ s.allOf, m.isRef = true) :
      Declares s (.alias s.typeExpr)

theorem modelBody_declares (s : Schema) : s.Declares s.modelBody := by
  unfold modelBody
  have fold : (if s.oneOf.isEmpty then s.anyOf else s.oneOf) = s.alternatives := rfl
  simp only [fold]
  by_cases scalars : s.ListsScalars
  case pos =>
    rw [if_pos (by simpa [ListsScalars] using scalars)]
    exact .enumeration scalars
  rw [if_neg (by simpa [ListsScalars] using scalars)]
  by_cases alternatives : s.alternatives = []
  case neg =>
    rw [if_pos (by simp [alternatives])]
    exact .union scalars alternatives
  rw [if_neg (by simp [alternatives])]
  split
  · rename_i flat
    simp only [Bool.and_eq_true, Bool.not_eq_true', List.isEmpty_eq_false_iff, any_isRef_eq_false]
      at flat
    exact .flat scalars alternatives flat.1.1 flat.1.2 flat.2
  · rename_i notFlat
    split
    · rename_i object
      simp only [Bool.and_eq_true, Bool.not_eq_true', List.isEmpty_iff, List.isEmpty_eq_false_iff]
        at object
      exact .object scalars alternatives object.1.1 object.1.2 object.2
    · rename_i notObject
      refine .alias scalars alternatives (fun interface none => ?_) fun interface given => ?_
      · simpa [interface, none] using notObject
      · simpa [interface, given] using notFlat

end Schema

end TypedClients
