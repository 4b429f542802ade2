import TypedClients.Proofs.Conjunctions
import TypedClients.Proofs.ModelNames

namespace TypedClients

/-- Each property once, as the last schema that declares it has it, whose own list of required
properties counts. -/
structure Flattens (schemas : List Schema) (fields : List FieldDecl) : Prop where
  once : (fields.map (·.name)).Nodup
  kept : ∀ c ∈ schemas, ∀ p ∈ c.properties, ∃ f ∈ fields, f.name = p.1
  last : ∀ f ∈ fields, ∃ before c after, schemas = before ++ c :: after ∧
    (∀ d ∈ after, f.name ∉ Keyed.keys d.properties) ∧
    ∃ p ∈ c.properties, f = .ofProperty c.required p

theorem keys_fields (s : Schema) : s.fields.map FieldDecl.name = Keyed.keys s.properties := by
  rw [Schema.fields_eq, List.map_map]
  rfl

theorem lastUnder?_fields {schemas : List Schema} {name : String} {f : FieldDecl}
    (h : lastUnder? FieldDecl.name (schemas.flatMap Schema.fields) name = some f) :
    ∃ before c after, schemas = before ++ c :: after ∧
      (∀ d ∈ after, name ∉ Keyed.keys d.properties) ∧
      ∃ p ∈ c.properties, f = .ofProperty c.required p := by
  induction schemas using List.reverseRecOn with
  | nil => cases h
  | append_singleton earlier c ih =>
    rw [List.flatMap_append, List.flatMap_singleton, lastUnder?_append] at h
    cases here : lastUnder? FieldDecl.name c.fields name with
    | some g =>
      rw [here] at h
      cases h
      have listed := (lastUnder?_eq_some here).1
      rw [Schema.fields_eq] at listed
      obtain ⟨p, property, rfl⟩ := List.mem_map.mp listed
      exact ⟨earlier, c, [], rfl, nofun, p, property, rfl⟩
    | none =>
      rw [here, Option.none_or] at h
      rw [lastUnder?_eq_none, keys_fields] at here
      obtain ⟨before, d, after, rfl, absent, declares⟩ := ih h
      refine ⟨before, d, after ++ [c], by simp, fun e mem => ?_, declares⟩
      rcases List.mem_append.mp mem with mem | last
      · exact absent e mem
      · exact List.mem_singleton.mp last ▸ here

theorem Overwrites.flattens {schemas : List Schema} {fields : List FieldDecl}
    (h : Overwrites FieldDecl.name (schemas.flatMap Schema.fields) fields) :
    Flattens schemas fields where
  once := h.nodup
  kept := by
    intro c mem p listed
    have declared : p.1 ∈ (schemas.flatMap Schema.fields).map FieldDecl.name := by
      rw [List.map_flatMap]
      refine List.mem_flatMap.mpr ⟨c, mem, ?_⟩
      rw [keys_fields]
      exact Keyed.mem_keys listed
    exact List.mem_map.mp (h.mem_keys.mpr declared)
  last := fun f mem => lastUnder?_fields (h.last f mem)

theorem inlineFields_refs {fields : List FieldDecl} {f : FieldDecl} (mem : f ∈ fields)
    {name : String} (h : name ∈ f.type.refs) : name ∈ (inlineFields fields).refs := by
  rw [inlineFields, TypeExpr.refs]
  exact TypeExpr.mem_refsOfFields.mpr ⟨_, List.mem_map_of_mem mem, h⟩

theorem TypeExpr.withNull_refs {t : TypeExpr} {name : String} (h : name ∈ t.refs) :
    name ∈ t.withNull.refs := by
  unfold withNull
  split
  · exact h
  · exact h
  · rename_i ts
    rw [refs] at h ⊢
    obtain ⟨t, listed, h⟩ := mem_refsOfList.mp h
    refine mem_refsOfList.mpr ⟨t, ?_, h⟩
    split
    · exact listed
    · exact List.mem_append_left _ listed
  · rw [refs]
    exact mem_refsOfList.mpr ⟨_, List.mem_cons_self, h⟩

namespace Schema

variable {s : Schema} {name : String}

theorem typeExpr_refs (h : name ∈ s.baseType.refs) : name ∈ s.typeExpr.refs := by
  rw [typeExpr]
  split
  · exact TypeExpr.withNull_refs h
  · exact h

/-- Members that are all given in place become one list of fields, in the type and in the
declaration. A single member beside which no properties stand is a type of its own. -/
theorem allOf_flattens (given : s.allOf ≠ []) (inPlace : ∀ m ∈ s.allOf, m.isRef = false) :
    (∀ c, c ∈ s.conjoined ↔ c = s ∨ s.Joins c) ∧
    Flattens s.conjoined s.flatFields ∧
    (s.oneOf = [] → s.anyOf = [] →
      (∃ m : SchemaRef, s.allOf = [m] ∧ s.properties = [] ∧ s.baseType = m.typeExpr) ∨
      (s.baseType = inlineFields s.flatFields ∧
        ∀ f ∈ s.flatFields, ∀ n ∈ f.type.refs, n ∈ s.typeExpr.refs)) ∧
    (¬s.ListsScalars → s.alternatives = [] → s.isInterfaceLike = true → ∀ name,
      (Model.ofSchema name (.item s)).body = .object s.flatFields none ∧
        ∀ f ∈ s.flatFields, ∀ n ∈ f.type.refs, n ∈ (Model.ofSchema name (.item s)).refs) := by
  refine ⟨fun c => mem_conjoined, s.flatFields_overwrites.flattens, fun noOneOf noAnyOf => ?_,
    fun noScalars noAlternatives interface name => ?_⟩
  · have gives := s.baseType_gives
    generalize whole : s.baseType = t at gives
    cases gives with
    | allOf _ _ _ form =>
      cases form with
      | @single m single plain => exact .inl ⟨m, single, plain, rfl⟩
      | flat => exact .inr ⟨rfl, fun f mem n h => typeExpr_refs (whole ▸ inlineFields_refs mem h)⟩
      | parts listed referring => cases (inPlace _ listed).symm.trans referring
    | _ => contradiction
  · have body : s.modelBody = .object s.flatFields none := by
      have declares := s.modelBody_declares
      generalize s.modelBody = body at declares ⊢
      cases declares with
      | flat => rfl
      | «alias» _ _ _ referring =>
        obtain ⟨m, listed, referring⟩ := referring interface given
        cases (inPlace m listed).symm.trans referring
      | _ => contradiction
    refine ⟨body, fun f mem n h => ?_⟩
    unfold Model.refs
    rw [Names.mem_ofList, Model.ofSchema, body]
    exact List.mem_append_left _ (List.mem_flatMap.mpr ⟨f, mem, h⟩)

/-- A kind that one member requires and another narrows, and beside it a reference. -/
def breed : Schema where
  allOf := [
    .item {
      type := some (.single .object)
      required := ["kind"]
      properties := [("kind", .item { type := some (.single .string) }),
        ("id", .item { type := some (.single .integer) })] },
    .item {
      type := some (.single .object)
      properties := [
        ("kind", .item { type := some (.single .string), enumValues := [.text "dog"] })]
      allOf := [.ref "#/components/schemas/Pet"] }]

theorem flatFields_breed : breed.flatFields =
    [⟨"kind", .literal "dog", false, false, none⟩, ⟨"id", .integer, false, false, none⟩] := by
  simp [flatFields, breed, mergeMembers, insertFields, insertField, fields_eq, FieldDecl.ofProperty,
    SchemaRef.typeExpr_item, typeExpr, baseType, namedType, stringType, enumType, TypeExpr.distinct,
    TypeExpr.isIn, constType, Referenced.item?]

theorem breed_loses_conjunction : (∀ m ∈ breed.allOf, m.isRef = false) ∧
    (∃ c ∈ breed.conjoined, "kind" ∈ c.required) ∧
    (∃ f ∈ breed.flatFields, f.name = "kind" ∧ f.required = false) ∧
    (∃ c ∈ breed.conjoined, .ref "#/components/schemas/Pet" ∈ c.allOf) ∧
    ∀ name, (Model.ofSchema name (.item breed)).refs = [] := by
  refine ⟨?_, ?_, ?_, ?_, fun name => ?_⟩
  · simp [breed, Referenced.isRef]
  · simp [conjoined, TypedClients.conjoined, breed]
  · simp [flatFields_breed]
  · simp [conjoined, TypedClients.conjoined, breed]
  · have body : breed.modelBody = .object breed.flatFields none := by
      simp [modelBody, breed, isInterfaceLike, Referenced.isRef, flatFields]
    simp [Model.refs, Model.ofSchema, body, flatFields_breed, TypeExpr.refs, Names.ofList]

theorem allOf_flattens_breed : Flattens breed.conjoined breed.flatFields ∧
    ∀ name, (Model.ofSchema name (.item breed)).body = .object breed.flatFields none := by
  have given : breed.allOf ≠ [] := by simp [breed]
  have inPlace : ∀ m ∈ breed.allOf, m.isRef = false := by simp [breed, Referenced.isRef]
  obtain ⟨_, flattens, _, declaration⟩ := allOf_flattens given inPlace
  refine ⟨flattens, fun name => (declaration ?_ ?_ ?_ name).1⟩
  · simp [ListsScalars, breed]
  · simp [alternatives, breed]
  · simp [isInterfaceLike, breed]

end Schema

end TypedClients
