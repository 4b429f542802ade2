import TypedClients.Document.Swagger
import TypedClients.Proofs.Keyed

namespace TypedClients.Swagger

variable {consumes produces bodies : List String} {fields : Fields} {key : String} {v : Json}

def spelledKeys : List String := ["$ref", "x-nullable", "nullable", "type", "format"]

def respelled (key : String) : String := if key = "x-nullable" then "nullable" else key

theorem find?_map_value (f : String → Json → Json) (key : String) (fields : Fields) :
    Keyed.find? key (fields.map fun p => (p.1, f p.1 p.2)) =
      (Keyed.find? key fields).map (f key) := by
  induction fields with
  | nil => rfl
  | cons p rest ih =>
    obtain ⟨k, w⟩ := p
    by_cases same : k = key
    · subst same
      simp [Keyed.find?]
    · simpa [Keyed.find?, same] using ih

theorem mem_mapValues {f : Json → Json} :
    (key, v) ∈ Keyed.mapValues f fields ↔ ∃ w, (key, w) ∈ fields ∧ f w = v := by
  unfold Keyed.mapValues
  simp only [List.mem_map, Prod.mk.injEq]
  constructor
  · rintro ⟨⟨k, w⟩, listed, rfl, same⟩
    exact ⟨w, listed, same⟩
  · rintro ⟨w, listed, same⟩
    exact ⟨_, listed, rfl, same⟩

theorem find?_updateField_self (f : Json → Json) (fields : Fields) :
    Keyed.find? key (updateField key f fields) = (Keyed.find? key fields).map f := by
  have updated := find?_map_value (fun k v => if k = key then f v else v) key fields
  simp only [if_true] at updated
  exact updated

theorem find?_updateField_of_ne {other : String} (f : Json → Json) (fields : Fields)
    (h : other ≠ key) :
    Keyed.find? other (updateField key f fields) = Keyed.find? other fields := by
  have updated := find?_map_value (fun k v => if k = key then f v else v) other fields
  simp only [if_neg h, Option.map_id'] at updated
  exact updated

def renameNullable (fields : Fields) : Fields :=
  match Keyed.find? "x-nullable" fields with
  | some v => Keyed.insertSorted "nullable" v (Keyed.erase "x-nullable" fields)
  | none => fields

def renameFile (fields : Fields) : Fields :=
  if typeOf? fields == some "file" then
    Keyed.insertSorted "format" (.text "binary") (Keyed.insertSorted "type" (.text "string") fields)
  else fields

theorem renameKeywords_eq (fields : Fields) :
    renameKeywords fields = renameFile (renameNullable (updateField "$ref" moveReference fields)) :=
  rfl

theorem find?_renameNullable (extension : key ≠ "x-nullable") (nullable : key ≠ "nullable") :
    Keyed.find? key (renameNullable fields) = Keyed.find? key fields := by
  unfold renameNullable
  split
  · rw [Keyed.find?_insertSorted_of_ne _ _ nullable, Keyed.find?_erase_of_ne _ extension]
  · rfl

theorem find?_renameFile (type : key ≠ "type") (format : key ≠ "format") :
    Keyed.find? key (renameFile fields) = Keyed.find? key fields := by
  unfold renameFile
  split
  · rw [Keyed.find?_insertSorted_of_ne _ _ format, Keyed.find?_insertSorted_of_ne _ _ type]
  · rfl

theorem find?_renameKeywords (plain : key ∉ spelledKeys) :
    Keyed.find? key (renameKeywords fields) = Keyed.find? key fields := by
  simp only [spelledKeys, List.mem_cons, List.not_mem_nil, or_false, not_or] at plain
  obtain ⟨reference, extension, nullable, type, format⟩ := plain
  rw [renameKeywords_eq, find?_renameFile type format, find?_renameNullable extension nullable,
    find?_updateField_of_ne _ _ reference]

theorem mem_renameNullable (h : (key, v) ∈ renameNullable fields) :
    ∃ k, (k, v) ∈ fields ∧ respelled k = key := by
  have kept : ∀ {k}, k ≠ "x-nullable" → respelled k = k := fun different => if_neg different
  unfold renameNullable at h
  split at h
  · rename_i w found
    rcases Keyed.mem_insertSorted h with here | other
    · cases here
      exact ⟨"x-nullable", Keyed.mem_of_find? found, rfl⟩
    · obtain ⟨listed, different⟩ := List.mem_filter.mp other
      exact ⟨key, listed, kept (by simpa using different)⟩
  · rename_i absent
    refine ⟨key, h, kept ?_⟩
    rintro rfl
    exact Keyed.find?_eq_none.mp absent (Keyed.mem_keys h)

theorem mem_renameFile (h : (key, v) ∈ renameFile fields) :
    (∃ s, v = .text s) ∨ (key, v) ∈ fields := by
  unfold renameFile at h
  split at h
  · rcases Keyed.mem_insertSorted h with here | other
    · cases here
      exact .inl ⟨_, rfl⟩
    · rcases Keyed.mem_insertSorted other with here | other
      · cases here
        exact .inl ⟨_, rfl⟩
      · exact .inr other
  · exact .inr h

theorem mem_updateReference (h : (key, v) ∈ updateField "$ref" moveReference fields) :
    (∃ s, v = .text s) ∨ (key, v) ∈ fields := by
  obtain ⟨⟨k, w⟩, listed, same⟩ := List.mem_map.mp h
  obtain ⟨rfl, rfl⟩ := Prod.mk.inj same
  show (∃ s, (if k = "$ref" then moveReference w else w) = .text s) ∨ _
  split
  · cases w with
    | text s => exact .inl ⟨_, rfl⟩
    | _ => exact .inr listed
  · exact .inr listed

theorem mem_renameKeywords (h : (key, v) ∈ renameKeywords fields) :
    (∃ s, v = .text s) ∨ ∃ k, (k, v) ∈ fields ∧ respelled k = key := by
  rcases mem_renameFile h with text | h
  · exact .inl text
  · obtain ⟨k, h, same⟩ := mem_renameNullable h
    exact (mem_updateReference h).imp id fun listed => ⟨k, listed, same⟩

theorem mem_renameKeywords_of_mem (h : (key, v) ∈ fields) (plain : key ∉ spelledKeys) :
    (key, v) ∈ renameKeywords fields := by
  simp only [spelledKeys, List.mem_cons, List.not_mem_nil, or_false, not_or] at plain
  obtain ⟨reference, extension, nullable, type, format⟩ := plain
  have referenced : (key, v) ∈ updateField "$ref" moveReference fields :=
    List.mem_map.mpr ⟨_, h, by simp [reference]⟩
  have renamed : (key, v) ∈ renameNullable (updateField "$ref" moveReference fields) := by
    unfold renameNullable
    split
    · exact Keyed.mem_insertSorted_of_ne
        (List.mem_filter.mpr ⟨referenced, by simpa using extension⟩) nullable
    · exact referenced
  rw [renameKeywords_eq]
  unfold renameFile
  split
  · exact Keyed.mem_insertSorted_of_ne (Keyed.mem_insertSorted_of_ne renamed type) format
  · exact renamed

theorem modernFields_eq (fields : Fields) :
    modernFields fields = Keyed.mapValues modern fields := by
  induction fields with
  | nil => rfl
  | cons p rest ih => rw [modernFields, ih]; rfl

theorem modernItems_eq (items : List Json) : modernItems items = items.map modern := by
  induction items with
  | nil => rfl
  | cons v rest ih => rw [modernItems, ih]; rfl

theorem field?_modern (plain : key ∉ spelledKeys) (v : Json) :
    (modern v).field? key = (v.field? key).map modern := by
  cases v with
  | object fields =>
    rw [modern, modernFields_eq]
    exact (find?_renameKeywords plain).trans (Keyed.find?_mapValues modern key fields)
  | _ => rfl

theorem text?_modern (v : Json) : (modern v).text? = v.text? := by
  cases v <;> rfl

theorem items?_modern (v : Json) : (modern v).items? = v.items?.map (·.map modern) := by
  cases v with
  | array items => rw [modern, modernItems_eq]; rfl
  | _ => rfl

theorem location?_modern (v : Json) : location? (modern v) = location? v := by
  unfold location?
  rw [field?_modern (by decide)]
  cases v.field? "in" with
  | none => rfl
  | some place => exact text?_modern place

def fields? : Json → Option Fields
  | .object fields => some fields
  | _ => none

def entries (v : Option Json) : Fields := (v.bind fields?).getD []

def parametersOf (v : Json) : List Json := ((v.field? "parameters").bind Json.items?).getD []

def operation? (item : Json) (verb : String) : Option Fields := (item.field? verb).bind fields?

theorem fields?_modern (v : Json) :
    fields? (modern v) = (fields? v).map fun f => renameKeywords (Keyed.mapValues modern f) := by
  cases v with
  | object fields => rw [modern, modernFields_eq]; rfl
  | _ => rfl

theorem entries_modern (v : Option Json) :
    entries (v.map modern) = renameKeywords (Keyed.mapValues modern (entries v)) := by
  unfold entries
  cases v with
  | none => rfl
  | some v =>
    show (fields? (modern v)).getD [] = _
    rw [fields?_modern]
    cases h : fields? v with
    | none => simp only [Option.bind_some, h]; rfl
    | some f => simp only [Option.bind_some, h]; rfl

theorem entries_mapObject (f : Json → Json) (v : Option Json) :
    entries (v.map (mapObject f)) = Keyed.mapValues f (entries v) := by
  cases v with
  | none => rfl
  | some v => cases v <;> rfl

theorem parametersOf_modern (v : Json) : parametersOf (modern v) = (parametersOf v).map modern := by
  unfold parametersOf
  rw [field?_modern (by decide)]
  cases v.field? "parameters" with
  | none => rfl
  | some params =>
    show (modern params).items?.getD [] = _
    rw [items?_modern]
    cases h : params.items? with
    | none => simp only [Option.bind_some, h]; rfl
    | some items => simp only [Option.bind_some, h]; rfl

theorem operation?_modern {verb : String} (plain : verb ∉ spelledKeys) (item : Json) :
    operation? (modern item) verb =
      (operation? item verb).map fun op => renameKeywords (Keyed.mapValues modern op) := by
  unfold operation?
  rw [field?_modern plain, Option.map_bind]
  cases item.field? verb with
  | none => rfl
  | some v => exact fields?_modern v

theorem location?_parameter (p : Json) : location? (parameter p) = location? p := by
  cases p with
  | object fields =>
    have written : ∀ (w : Json) (others : Fields),
        location? (.object (Keyed.insertSorted "schema" w (Keyed.erase "allowEmptyValue" others))) =
          (Keyed.find? "in" others).bind Json.text? := by
      intro w others
      show (Keyed.find? "in" _).bind _ = _
      rw [Keyed.find?_insertSorted_of_ne _ _ (by decide), Keyed.find?_erase_of_ne _ (by decide)]
    have rest : Keyed.find? "in" (takeSchema (Keyed.erase "collectionFormat" fields)).2 =
        Keyed.find? "in" fields := by
      rw [← Keyed.find?_erase_of_ne fields (show "in" ≠ "collectionFormat" by decide)]
      exact Keyed.find?_filter (fun k => !schemaKeywords.contains k) _ _
    simp only [parameter]
    split
    · rfl
    · rw [written]
      split
      · rw [Keyed.find?_insertSorted_of_ne _ _ (by decide), rest]
        rfl
      · rw [rest]
        rfl
  | _ => rfl

def InBody (p : Json) : Prop := location? p = some "body" ∨ location? p = some "formData"

theorem named_iff {p : Json} : (parameterName? p).any bodies.contains = true ↔
    ∃ name ∈ bodies, parameterName? p = some name := by
  simp only [Option.any_eq_true]
  constructor
  · rintro ⟨name, named, listed⟩
    exact ⟨name, by simpa using listed, named⟩
  · rintro ⟨name, listed, named⟩
    exact ⟨name, named, by simpa using listed⟩

theorem isRequestParameter_iff {p : Json} : isRequestParameter bodies p = true ↔
    InBody p ∨ ∃ name ∈ bodies, parameterName? p = some name := by
  unfold isRequestParameter InBody
  rw [Bool.or_eq_true, Bool.or_eq_true, beq_iff_eq, beq_iff_eq, named_iff]

namespace Sorted

variable {s : Sorted} {p : Json}

def takesBody (s : Sorted) : Bool := s.body.isSome || !s.form.isEmpty

theorem requestBody?_isSome (s : Sorted) : (s.requestBody? consumes).isSome = s.takesBody := by
  unfold requestBody? takesBody
  cases s.body with
  | some b => rfl
  | none =>
    cases h : s.form.isEmpty with
    | true => rfl
    | false => rfl

theorem add_cases (bodies consumes : List String) (s : Sorted) (p : Json) :
    (isRequestParameter bodies p = true ∧ (s.add bodies consumes p).plain = s.plain ∧
      (s.add bodies consumes p).takesBody = true) ∨
    (isRequestParameter bodies p = false ∧
      s.add bodies consumes p = { s with plain := s.plain ++ [parameter p] }) := by
  unfold add
  split
  · rename_i name found
    obtain ⟨named, listed⟩ := Option.filter_eq_some_iff.mp found
    have named := named_iff.mp ((Option.any_eq_true _ _).mpr ⟨name, named, listed⟩)
    have request := isRequestParameter_iff.mpr (.inr named)
    exact .inl ⟨request, rfl, rfl⟩
  · rename_i unnamed
    have other : ¬∃ name ∈ bodies, parameterName? p = some name := by
      rw [← named_iff, ← Option.isSome_filter, unnamed]
      decide
    split
    · rename_i body
      have request : isRequestParameter bodies p = true :=
        isRequestParameter_iff.mpr (.inl (.inl (by simpa using body)))
      exact .inl ⟨request, rfl, rfl⟩
    · split
      · rename_i form
        have request : isRequestParameter bodies p = true :=
          isRequestParameter_iff.mpr (.inl (.inr (by simpa using form)))
        exact .inl ⟨request, rfl, by simp [takesBody]⟩
      · rename_i body form
        refine .inr ⟨Bool.eq_false_iff.mpr fun request => ?_, rfl⟩
        rcases isRequestParameter_iff.mp request with (place | place) | named
        · exact body (by simpa using place)
        · exact form (by simpa using place)
        · exact other named

theorem foldl_add (params : List Json) (s : Sorted) :
    (params.foldl (add bodies consumes) s).plain =
      s.plain ++ (params.filter fun p => !isRequestParameter bodies p).map parameter ∧
    (params.foldl (add bodies consumes) s).takesBody =
      (s.takesBody || params.any (isRequestParameter bodies)) := by
  induction params generalizing s with
  | nil => simp
  | cons p rest ih =>
    rw [List.foldl_cons]
    obtain ⟨kept, taken⟩ := ih (s.add bodies consumes p)
    rw [kept, taken]
    rcases add_cases bodies consumes s p with ⟨request, same, takes⟩ | ⟨plain, added⟩
    · simp [request, same, takes]
    · have takes : (s.add bodies consumes p).takesBody = s.takesBody := by rw [added]; rfl
      rw [takes]
      simp [plain, added]

end Sorted

theorem find?_setSome (value : Option Json) (fields : Fields) :
    Keyed.find? key (setSome key value fields) = value.or (Keyed.find? key fields) := by
  cases value with
  | none => rfl
  | some v => exact Keyed.find?_insertSorted_self key v fields

theorem find?_setSome_of_ne {other : String} (value : Option Json) (fields : Fields)
    (h : other ≠ key) :
    Keyed.find? other (setSome key value fields) = Keyed.find? other fields := by
  cases value with
  | none => rfl
  | some v => exact Keyed.find?_insertSorted_of_ne v fields h

theorem find?_setItems_of_ne {other : String} (items : List Json) (fields : Fields)
    (h : other ≠ key) :
    Keyed.find? other (setItems key items fields) = Keyed.find? other fields := by
  unfold setItems
  split
  · rfl
  · exact Keyed.find?_insertSorted_of_ne _ fields h

theorem parametersOf_setItems (items : List Json)
    (absent : Keyed.find? "parameters" fields = none) :
    parametersOf (.object (setItems "parameters" items fields)) = items := by
  show ((Keyed.find? "parameters" _).bind Json.items?).getD [] = _
  unfold setItems
  split
  · rename_i none
    rw [absent]
    exact (List.isEmpty_iff.mp none).symm
  · rw [Keyed.find?_insertSorted_self]
    rfl

theorem find?_operation_requestBody (op : Fields) (shared : List Json) :
    Keyed.find? "requestBody" (operation consumes produces bodies shared op) =
      (((shared ++ parametersOf (.object op)).foldl
        (Sorted.add bodies (ownTypes "consumes" op consumes)) {}).requestBody?
          (ownTypes "consumes" op consumes)).or (Keyed.find? "requestBody" op) := by
  simp only [operation]
  rw [find?_updateField_of_ne _ _ (by decide), find?_setItems_of_ne _ _ (by decide), find?_setSome,
    Keyed.find?_erase_of_ne _ (by decide), Keyed.find?_erase_of_ne _ (by decide),
    Keyed.find?_erase_of_ne _ (by decide)]
  rfl

theorem find?_requestBody (op : Fields) (shared : List Json) :
    (Keyed.find? "requestBody" (operation consumes produces bodies shared op)).isSome =
      ((Keyed.find? "requestBody" op).isSome ||
        (shared ++ parametersOf (.object op)).any (isRequestParameter bodies)) := by
  rw [find?_operation_requestBody, Option.isSome_or, Sorted.requestBody?_isSome,
    (Sorted.foldl_add _ _).2, Bool.or_comm]
  rfl

theorem parametersOf_operation (op : Fields) (shared : List Json) :
    parametersOf (.object (operation consumes produces bodies shared op)) =
      ((shared ++ parametersOf (.object op)).filter
        fun p => !isRequestParameter bodies p).map parameter := by
  have untouched : ∀ (f : Json → Json) (fields : Fields),
      parametersOf (.object (updateField "responses" f fields)) =
        parametersOf (.object fields) := by
    intro f fields
    show ((Keyed.find? "parameters" _).bind Json.items?).getD [] = _
    rw [find?_updateField_of_ne _ _ (by decide)]
    rfl
  simp only [operation]
  rw [untouched, parametersOf_setItems, (Sorted.foldl_add _ _).1]
  · rfl
  · rw [find?_setSome_of_ne _ _ (by decide), Keyed.find?_erase_self]

def member (consumes produces bodies : List String) (request : List Json) (key : String) :
    Json → Json
  | .object op =>
    if verbs.contains key then .object (operation consumes produces bodies request op)
    else .object op
  | other => other

theorem field?_pathItem (item : Fields) :
    (pathItem consumes produces bodies (.object item)).field? key =
      (Keyed.find? key (setItems "parameters"
        (((parametersOf (.object item)).filter fun p => !isRequestParameter bodies p).map parameter)
        (Keyed.erase "parameters" item))).map (member consumes produces bodies
          ((parametersOf (.object item)).filter (isRequestParameter bodies)) key) := by
  refine (congrArg (Keyed.find? key) (List.map_congr_left fun p _ => ?_)).trans
    (find?_map_value (member consumes produces bodies _) key _)
  obtain ⟨k, v⟩ := p
  cases v <;> rfl

theorem parametersOf_pathItem (item : Json) :
    parametersOf (pathItem consumes produces bodies item) =
      ((parametersOf item).filter fun p => !isRequestParameter bodies p).map parameter := by
  cases item with
  | object item =>
    have kept := parametersOf_setItems (((parametersOf (.object item)).filter
      fun p => !isRequestParameter bodies p).map parameter)
        (Keyed.find?_erase_self "parameters" item)
    refine Eq.trans ?_ kept
    unfold parametersOf
    rw [field?_pathItem]
    show _ = ((Keyed.find? "parameters" _).bind Json.items?).getD []
    unfold parametersOf
    cases Keyed.find? "parameters" (setItems "parameters" _ _) with
    | none => rfl
    | some v => cases v <;> rfl
  | _ => rfl

theorem operation?_pathItem {verb : String} (known : verb ∈ verbs) (item : Json) :
    operation? (pathItem consumes produces bodies item) verb =
      (operation? item verb).map (operation consumes produces bodies
        ((parametersOf item).filter (isRequestParameter bodies))) := by
  cases item with
  | object item =>
    have other : verb ≠ "parameters" := by
      rintro rfl
      exact absurd known (by decide)
    unfold operation?
    rw [field?_pathItem, find?_setItems_of_ne _ _ other, Keyed.find?_erase_of_ne _ other]
    show _ = ((Keyed.find? verb item).bind fields?).map _
    cases Keyed.find? verb item with
    | none => rfl
    | some v =>
      cases v with
      | object op => simp [member, known, fields?]
      | _ => rfl
  | _ => rfl

def sharedParametersOf (doc : Json) : Fields := entries (doc.field? "parameters")

def componentParameters (doc : Json) : Fields :=
  entries ((doc.field? "components").bind (·.field? "parameters"))

def paths (doc : Json) : Fields := entries (doc.field? "paths")

def bodyNames (doc : Json) : List String :=
  Keyed.keys ((sharedParametersOf doc).filter fun p => location? p.2 == some "body")

theorem sharedParameters_eq (root : Fields) :
    ((sharedParameters root).map fun p => Keyed.keys p.1).getD [] = bodyNames (.object root) ∧
    ((sharedParameters root).map fun p => p.2).getD [] =
      (sharedParametersOf (.object root)).filter fun p => location? p.2 != some "body" := by
  have read : sharedParametersOf (.object root) = entries (Keyed.find? "parameters" root) := rfl
  rw [bodyNames, read]
  unfold sharedParameters
  cases Keyed.find? "parameters" root with
  | none => exact ⟨rfl, rfl⟩
  | some v => cases v <;> exact ⟨rfl, rfl⟩

theorem find?_components (root : Fields) :
    Keyed.find? "parameters" (Keyed.sortedOfList (components consumes produces root)) =
      (sharedParameters root).map fun p => .object (Keyed.mapValues parameter p.2) := by
  rw [Keyed.find?_sortedOfList]
  unfold components
  have schemas : ∀ d : Option Json, Keyed.find? "parameters"
      (d.map fun d => ("schemas", d)).toList.reverse = none := by
    intro d
    cases d <;> rfl
  dsimp only
  rw [List.reverse_append, List.reverse_append, Keyed.find?_append, Keyed.find?_append, schemas,
    Option.or_none]
  -- Responses are under a key of their own as well, if there are any.
  split
  · cases sharedParameters root <;> rfl
  · cases sharedParameters root <;> rfl

def upgradedRoot (consumes produces : List String) (root : Fields) : Fields :=
  updateField "paths" (mapObject (pathItem consumes produces (bodyNames (.object root))))
    (Keyed.insertSorted "components" (Json.ofPairs (components consumes produces root))
      (Keyed.insertSorted "openapi" (.text "3.0.3")
        (updateField "info" textVersion (root.filter fun p => !moved.contains p.1))))

theorem upgrade_eq_ok {doc doc' : Json} (swagger : isSwagger doc) (run : upgrade doc = .ok doc') :
    ∃ consumes produces root,
      doc = .object root ∧ doc' = modern (.object (upgradedRoot consumes produces root)) := by
  cases doc with
  | object root =>
    obtain ⟨version, found⟩ := Option.isSome_iff_exists.mp swagger
    have declared : Keyed.find? "swagger" root = some version := found
    simp only [upgrade, declared, (sharedParameters_eq root).1] at run
    split at run
    · cases run
    · exact ⟨_, _, root, rfl, (Except.ok.inj run).symm⟩
  | _ => cases swagger

theorem find?_upgradedRoot_paths (root : Fields) :
    Keyed.find? "paths" (upgradedRoot consumes produces root) = (Keyed.find? "paths" root).map
      (mapObject (pathItem consumes produces (bodyNames (.object root)))) := by
  rw [upgradedRoot, find?_updateField_self, Keyed.find?_insertSorted_of_ne _ _ (by decide),
    Keyed.find?_insertSorted_of_ne _ _ (by decide), find?_updateField_of_ne _ _ (by decide),
    Keyed.find?_filter (fun k => !moved.contains k), if_pos (by decide)]

theorem find?_upgradedRoot_components (root : Fields) :
    Keyed.find? "components" (upgradedRoot consumes produces root) =
      some (Json.ofPairs (components consumes produces root)) := by
  rw [upgradedRoot, find?_updateField_of_ne _ _ (by decide), Keyed.find?_insertSorted_self]

theorem paths_upgradedRoot (root : Fields) :
    paths (modern (.object (upgradedRoot consumes produces root))) =
      renameKeywords (Keyed.mapValues modern (Keyed.mapValues
        (pathItem consumes produces (bodyNames (.object root))) (paths (.object root)))) := by
  unfold paths
  rw [field?_modern (by decide), entries_modern]
  show renameKeywords (Keyed.mapValues modern (entries (Keyed.find? "paths" _))) = _
  rw [find?_upgradedRoot_paths, entries_mapObject]
  rfl

theorem componentParameters_upgradedRoot (root : Fields) :
    componentParameters (modern (.object (upgradedRoot consumes produces root))) =
      renameKeywords (Keyed.mapValues modern (Keyed.mapValues parameter
        ((sharedParametersOf (.object root)).filter fun p => location? p.2 != some "body"))) := by
  have own : (modern (.object (upgradedRoot consumes produces root))).field? "components" =
      some (modern (Json.ofPairs (components consumes produces root))) := by
    rw [field?_modern (by decide)]
    exact congrArg (Option.map modern) (find?_upgradedRoot_components root)
  unfold componentParameters
  rw [own, Option.bind_some, field?_modern (by decide), entries_modern]
  show renameKeywords (Keyed.mapValues modern (entries (Keyed.find? "parameters" _))) = _
  rw [find?_components, ← (sharedParameters_eq root).2]
  cases sharedParameters root <;> rfl

/-- A parameter given by a reference to a shared one in `place`, whose name the reference spells as
it is. -/
def Refers (doc : Json) (place : String) (p : Json) : Prop :=
  ∃ name q, parameterName? p = some name ∧ (name, q) ∈ sharedParametersOf doc ∧
    location? q = some place

theorem named_bodyNames {doc p : Json} :
    (parameterName? p).any (bodyNames doc).contains = true ↔ Refers doc "body" p := by
  have shared : ∀ name, name ∈ bodyNames doc ↔
      ∃ q, (name, q) ∈ sharedParametersOf doc ∧ location? q = some "body" := by
    intro name
    simp [bodyNames, Keyed.keys]
  rw [named_iff]
  constructor
  · rintro ⟨name, body, named⟩
    obtain ⟨q, listed, place⟩ := (shared name).mp body
    exact ⟨name, q, named, listed, place⟩
  · rintro ⟨name, q, named, listed, place⟩
    exact ⟨name, (shared name).mpr ⟨q, listed, place⟩, named⟩

theorem isRequestParameter_bodyNames {doc p : Json} :
    isRequestParameter (bodyNames doc) p = true ↔ InBody p ∨ Refers doc "body" p := by
  rw [isRequestParameter_iff, ← named_iff, named_bodyNames]

/-- No parameter of an operation is one of version 2 only, and the operation has a body just when it
had one before or a parameter, of its own or of the path, brings one: a parameter given in place, or
a reference to a shared body. -/
structure TakesBody (doc item : Json) (op op' : Fields) : Prop where
  parameters : ∀ p ∈ parametersOf (.object op'), ¬InBody p
  requestBody : Keyed.contains "requestBody" op' = true ↔ Keyed.contains "requestBody" op = true ∨
    ∃ p ∈ parametersOf item ++ parametersOf (.object op), InBody p ∨ Refers doc "body" p

structure TakesBodies (doc item item' : Json) : Prop where
  parameters : ∀ p ∈ parametersOf item', ¬InBody p
  operations : ∀ verb ∈ verbs,
    Option.Rel (TakesBody doc item) (operation? item verb) (operation? item' verb)

theorem not_inBody_of_kept {p : Json} {params : List Json}
    (h : p ∈ ((params.filter fun p => !isRequestParameter bodies p).map parameter).map modern) :
    ¬InBody p := by
  obtain ⟨q, written, rfl⟩ := List.mem_map.mp h
  obtain ⟨r, kept, rfl⟩ := List.mem_map.mp written
  have plain := (List.mem_filter.mp kept).2
  intro place
  unfold InBody at place
  rw [location?_modern, location?_parameter] at place
  have request : isRequestParameter bodies r = true := isRequestParameter_iff.mpr (.inl place)
  simp [request] at plain

theorem operation_takesBody (doc item : Json) (op : Fields) :
    TakesBody doc item op (renameKeywords (Keyed.mapValues modern
      (operation consumes produces (bodyNames doc)
        ((parametersOf item).filter (isRequestParameter (bodyNames doc))) op))) where
  parameters := by
    intro p listed
    have same : Json.object (renameKeywords (Keyed.mapValues modern (operation consumes produces
        (bodyNames doc) ((parametersOf item).filter (isRequestParameter (bodyNames doc))) op))) =
      modern (.object (operation consumes produces (bodyNames doc)
        ((parametersOf item).filter (isRequestParameter (bodyNames doc))) op)) := by
      rw [modern, modernFields_eq]
    rw [same, parametersOf_modern, parametersOf_operation] at listed
    exact not_inBody_of_kept listed
  requestBody := by
    unfold Keyed.contains
    rw [find?_renameKeywords (by decide), Keyed.find?_mapValues, Option.isSome_map,
      find?_requestBody, Bool.or_eq_true, List.any_eq_true]
    -- The operation is handed only those parameters of the path that bring a body.
    refine or_congr_right ⟨?_, ?_⟩
    · rintro ⟨p, listed, request⟩
      refine ⟨p, ?_, isRequestParameter_bodyNames.mp request⟩
      rcases List.mem_append.mp listed with shared | own
      · exact List.mem_append_left _ (List.mem_filter.mp shared).1
      · exact List.mem_append_right _ own
    · rintro ⟨p, listed, brings⟩
      have request := isRequestParameter_bodyNames.mpr brings
      refine ⟨p, ?_, request⟩
      rcases List.mem_append.mp listed with shared | own
      · exact List.mem_append_left _ (List.mem_filter.mpr ⟨shared, request⟩)
      · exact List.mem_append_right _ own

theorem pathItem_takesBodies (consumes produces : List String) (doc item : Json) :
    TakesBodies doc item (modern (pathItem consumes produces (bodyNames doc) item)) where
  parameters := by
    intro p listed
    rw [parametersOf_modern, parametersOf_pathItem] at listed
    exact not_inBody_of_kept listed
  operations := by
    intro verb known
    have plain : verb ∉ spelledKeys := by
      have apart : ∀ verb ∈ verbs, verb ∉ spelledKeys := by decide
      exact apart verb known
    rw [operation?_modern plain, operation?_pathItem known]
    cases operation? item verb with
    | none => exact .none
    | some op => exact .some (operation_takesBody doc item op)

/-- The bodies of version 2 are found wherever they stand, except that a shared form parameter stays
where and what it is, and a reference to it brings no body. -/
theorem upgrade_requestBodies {doc doc' : Json} (swagger : isSwagger doc)
    (run : upgrade doc = .ok doc') :
    (∀ path item', (path, item') ∈ paths doc' → (∃ s, item' = .text s) ∨
      ∃ source item, (source, item) ∈ paths doc ∧ respelled source = path ∧
        TakesBodies doc item item') ∧
    (∀ path item, (path, item) ∈ paths doc → path ∉ spelledKeys →
      ∃ item', (path, item') ∈ paths doc' ∧ TakesBodies doc item item') ∧
    (∀ name p', (name, p') ∈ componentParameters doc' → (∃ s, p' = .text s) ∨
      ∃ source p, (source, p) ∈ sharedParametersOf doc ∧ respelled source = name ∧
        location? p' = location? p ∧ location? p ≠ some "body") ∧
    (∀ name p, (name, p) ∈ sharedParametersOf doc → location? p ≠ some "body" →
      name ∉ spelledKeys →
        ∃ p', (name, p') ∈ componentParameters doc' ∧ location? p' = location? p) := by
  obtain ⟨consumes, produces, root, rfl, rfl⟩ := upgrade_eq_ok swagger run
  rw [paths_upgradedRoot, componentParameters_upgradedRoot]
  refine ⟨?_, ?_, ?_, ?_⟩
  · intro path item' listed
    refine (mem_renameKeywords listed).imp id ?_
    rintro ⟨source, renamed, same⟩
    obtain ⟨_, moved, rfl⟩ := mem_mapValues.mp renamed
    obtain ⟨item, stored, rfl⟩ := mem_mapValues.mp moved
    exact ⟨source, item, stored, same, pathItem_takesBodies consumes produces _ item⟩
  · intro path item stored plain
    refine ⟨_, mem_renameKeywords_of_mem ?_ plain, pathItem_takesBodies consumes produces _ item⟩
    exact mem_mapValues.mpr ⟨_, mem_mapValues.mpr ⟨item, stored, rfl⟩, rfl⟩
  · intro name p' listed
    refine (mem_renameKeywords listed).imp id ?_
    rintro ⟨source, renamed, same⟩
    obtain ⟨_, moved, rfl⟩ := mem_mapValues.mp renamed
    obtain ⟨p, kept, rfl⟩ := mem_mapValues.mp moved
    obtain ⟨stored, other⟩ := List.mem_filter.mp kept
    exact ⟨source, p, stored, same, (location?_modern _).trans (location?_parameter p),
      by simpa using other⟩
  · intro name p stored other plain
    refine ⟨_, mem_renameKeywords_of_mem ?_ plain,
      (location?_modern _).trans (location?_parameter p)⟩
    have kept : (location? p != some "body") = true := by simpa using other
    exact mem_mapValues.mpr ⟨_, mem_mapValues.mpr ⟨p, List.mem_filter.mpr ⟨stored, kept⟩, rfl⟩, rfl⟩

def noteReference : Json := .object [("$ref", .text "#/parameters/Note")]

def petReference : Json := .object [("$ref", .text "#/parameters/Pet")]

def uploadItem : Json := .object
  [("post", .object [("parameters", .array [noteReference])]),
   ("put", .object [("parameters", .array [petReference])])]

def uploadDoc : Json := .object
  [("parameters", .object
    [("Note", .object [("in", .text "formData"), ("name", .text "note"), ("type", .text "string")]),
     ("Pet", .object [("in", .text "body"), ("name", .text "pet")])]),
   ("paths", .object [("/upload", uploadItem)]),
   ("swagger", .text "2.0")]

theorem upgrade_requestBodies_upload :
    ∃ (doc' item' note : Json) (post put : Fields), isSwagger uploadDoc ∧
      upgrade uploadDoc = .ok doc' ∧
      ("Note", note) ∈ componentParameters doc' ∧ location? note = some "formData" ∧
      ("/upload", item') ∈ paths doc' ∧
      operation? item' "post" = some post ∧ Keyed.contains "requestBody" post = false ∧
      operation? item' "put" = some put ∧ Keyed.contains "requestBody" put = true := by
  have swagger : isSwagger uploadDoc := rfl
  have run : upgrade uploadDoc = .ok (modern (.object (upgradedRoot [defaultMediaType]
    [defaultMediaType] ((fields? uploadDoc).getD [])))) := rfl
  obtain ⟨_, operations, _, shared⟩ := upgrade_requestBodies swagger run
  obtain ⟨item', there, bodies⟩ := operations "/upload" uploadItem List.mem_cons_self (by decide)
  obtain ⟨note, kept, place⟩ := shared "Note" _ List.mem_cons_self (by decide) (by decide)
  have posts := bodies.operations "post" (by decide)
  have puts := bodies.operations "put" (by decide)
  generalize posted : operation? item' "post" = post at posts
  generalize stored : operation? item' "put" = put at puts
  cases posts with
  | some post =>
    cases puts with
    | some put =>
      refine ⟨_, item', note, _, _, swagger, run, kept, place, there, posted, ?_, stored, ?_⟩
      · refine Bool.eq_false_iff.mpr fun held => ?_
        rcases post.requestBody.mp held with own | ⟨p, listed, brings⟩
        · exact absurd own (by decide)
        · cases List.mem_singleton.mp (show p ∈ [noteReference] from listed)
          exact absurd (isRequestParameter_bodyNames.mpr brings) (by decide)
      · have body : isRequestParameter (bodyNames uploadDoc) petReference = true := by decide
        exact put.requestBody.mpr
          (.inr ⟨petReference, List.mem_cons_self, isRequestParameter_bodyNames.mp body⟩)

end TypedClients.Swagger
