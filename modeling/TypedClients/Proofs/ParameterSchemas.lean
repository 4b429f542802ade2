import TypedClients.Proofs.Decoding
import TypedClients.Proofs.Modernization

namespace TypedClients.Swagger

variable {consumes produces bodies : List String} {fields schema others : Fields}
  {key name : String} {doc item p : Json}

def Inline (p : Json) : Prop := ∃ fields, p = .object fields ∧ Keyed.contains "$ref" fields = false

/-- The schema holds the keywords of the parameter that describe the value, in the new spelling, and
nothing else but a description. Only the types that the parameter names can make it nullable. -/
structure Describes (schema p : Json) : Prop where
  keywords : ∀ key ∈ schemaKeywords, schema.field? key = (modern p).field? key
  others : ∀ key ∉ schemaKeywords, key ≠ "description" → schema.field? key = none
  nullable : ∀ depth r, Schema.readRefWithin depth (Datum.ofJson schema) = some r →
    ∃ s, r = .item s ∧ (s.isNullable = true ↔ Schema.NamesNull ((modern p).field? "type"))

structure Takes (schema fields : Fields) : Prop where
  keywords : ∀ key ∈ schemaKeywords, Keyed.find? key schema = Keyed.find? key fields
  others : ∀ key ∉ schemaKeywords, key ≠ "description" → Keyed.find? key schema = none

theorem find?_renameKeywords_congr (typed : typeOf? fields = typeOf? others)
    (unmoved : key ∉ ["$ref", "x-nullable", "nullable"])
    (same : Keyed.find? key fields = Keyed.find? key others) :
    Keyed.find? key (renameKeywords fields) = Keyed.find? key (renameKeywords others) := by
  by_cases kept : key ∈ ["type", "format"]
  · by_cases file : typeOf? fields = some "file"
    · obtain ⟨type, format⟩ := find?_renameKeywords_file file
      obtain ⟨type', format'⟩ := find?_renameKeywords_file (typed.symm.trans file)
      rcases List.mem_pair.mp kept with rfl | rfl
      · rw [type, type']
      · rw [format, format']
    · rw [find?_renameKeywords_other file kept, find?_renameKeywords_other (typed ▸ file) kept,
        same]
  · have plain : key ∉ spelledKeys := by
      simp only [spelledKeys, List.mem_cons, List.not_mem_nil, or_false, not_or] at kept unmoved ⊢
      tauto
    rw [find?_renameKeywords plain, find?_renameKeywords plain, same]

namespace Takes

variable (takes : Takes schema fields)
include takes

theorem find?_modern (listed : key ∈ schemaKeywords) :
    Keyed.find? key (renameKeywords (Keyed.mapValues modern schema)) =
      Keyed.find? key (renameKeywords (Keyed.mapValues modern fields)) := by
  have apart : ∀ key ∈ schemaKeywords, key ∉ ["$ref", "x-nullable", "nullable"] := by decide
  refine find?_renameKeywords_congr ?_ (apart key listed) ?_
  · rw [typeOf?_mapValues text?_modern, typeOf?_mapValues text?_modern]
    exact typeOf?_congr (takes.keywords "type" (by decide))
  · rw [Keyed.find?_mapValues, Keyed.find?_mapValues, takes.keywords key listed]

theorem find?_modern_other (unlisted : key ∉ schemaKeywords) (other : key ≠ "description") :
    Keyed.find? key (renameKeywords (Keyed.mapValues modern schema)) = none := by
  have none : ∀ k ∉ schemaKeywords, k ≠ "description" →
      Keyed.find? k (Keyed.mapValues modern schema) = none := by
    intro k unlisted other
    rw [Keyed.find?_mapValues, takes.others k unlisted other]
    rfl
  by_cases plain : key ∈ spelledKeys
  · simp only [spelledKeys, List.mem_cons, List.not_mem_nil, or_false] at plain
    rcases plain with rfl | rfl | rfl | rfl | rfl
    · rw [find?_renameKeywords_reference, none _ unlisted other]
      rfl
    · exact find?_renameKeywords_extension
    · rw [find?_renameKeywords_nullable, none "x-nullable" (by decide) (by decide),
        none _ unlisted other]
      rfl
    · exact absurd (by decide) unlisted
    · exact absurd (by decide) unlisted
  · rw [find?_renameKeywords plain, none key unlisted other]

theorem describes : Describes (modern (.object schema)) (.object fields) where
  keywords := by
    intro key listed
    rw [modern_object, modern_object]
    exact takes.find?_modern listed
  others := by
    intro key unlisted other
    rw [modern_object]
    exact takes.find?_modern_other unlisted other
  nullable := by
    intro depth r read
    rw [modern_object] at read ⊢
    obtain ⟨s, sub, rfl, given⟩ := Schema.readRefWithin_inline read
      (takes.find?_modern_other (by decide) (by decide))
    refine ⟨s, rfl, ?_⟩
    rw [Schema.readWith_isNullable given (takes.find?_modern_other (by decide) (by decide)),
      takes.find?_modern (by decide)]
    rfl

end Takes

theorem find?_takeSchema (fields : Fields) (key : String) :
    Keyed.find? key (takeSchema fields).1 =
      if key ∈ schemaKeywords then Keyed.find? key fields else none := by
  refine (Keyed.find?_filter (fun k => schemaKeywords.contains k) key fields).trans ?_
  simp

theorem takeSchema_takes (unlisted : key ∉ schemaKeywords) (fields : Fields) :
    Takes (takeSchema (Keyed.erase key fields)).1 fields where
  keywords := by
    intro k listed
    have other : k ≠ key := by
      rintro rfl
      exact unlisted listed
    rw [find?_takeSchema, if_pos listed, Keyed.find?_erase_of_ne _ other]
  others := by
    intro k other _
    rw [find?_takeSchema, if_neg other]

theorem parameter_takes (inline : Keyed.contains "$ref" fields = false) :
    ∃ schema, (parameter (.object fields)).field? "schema" = some (.object schema) ∧
      Takes schema fields := by
  refine ⟨_, ?_, takeSchema_takes (show "collectionFormat" ∉ schemaKeywords by decide) fields⟩
  simp only [parameter, inline]
  exact Keyed.find?_insertSorted_self "schema" _ _

theorem Takes.setDescription (takes : Takes schema fields) (d : Option Json) :
    Takes (setSome "description" d schema) fields where
  keywords := by
    intro k listed
    have other : k ≠ "description" := by
      rintro rfl
      exact absurd listed (by decide)
    rw [find?_setSome_of_ne _ _ other, takes.keywords k listed]
  others := by
    intro k unlisted other
    rw [find?_setSome_of_ne _ _ other, takes.others k unlisted other]

def formSchema (fields : Fields) : Fields :=
  setSome "description" (Keyed.find? "description" (takeSchema (Keyed.erase "name" fields)).2)
    (takeSchema (Keyed.erase "name" fields)).1

theorem formSchema_takes (fields : Fields) : Takes (formSchema fields) fields :=
  (takeSchema_takes (by decide) fields).setDescription _

def formName? (p : Json) : Option String := (p.field? "name").bind Json.text?

theorem formField?_eq (named : formName? (.object fields) = some name) :
    ∃ required,
      formField? (.object fields) = some (name, required, .object (formSchema fields)) := by
  obtain ⟨v, found, text⟩ := Option.bind_eq_some_iff.mp named
  have stored : Keyed.find? "name" fields = some v := found
  cases v with
  | text s =>
    cases text
    simp only [formField?, stored]
    exact ⟨_, rfl⟩
  | _ => cases text

theorem formField?_name {entry : String × Bool × Json} (h : formField? p = some entry) :
    formName? p = some entry.1 ∧ ∃ schema, entry.2.2 = .object schema := by
  unfold formField? at h
  split at h
  · rename_i fields
    split at h
    · rename_i name found
      cases h
      refine ⟨?_, _, rfl⟩
      show (Keyed.find? "name" fields).bind Json.text? = some name
      rw [found]
      rfl
    · cases h
  · cases h

def isForm (p : Json) : Bool := location? p == some "formData"

theorem Sorted.foldl_form (consumes : List String) {params : List Json} (s : Sorted)
    (bodiless : ∀ p ∈ params, location? p ≠ some "body" ∧
      (parameterName? p).any bodies.contains ≠ true) :
    (params.foldl (Sorted.add bodies consumes) s).body = s.body ∧
      (params.foldl (Sorted.add bodies consumes) s).form =
        s.form ++ params.filter isForm := by
  induction params generalizing s with
  | nil => simp
  | cons p rest ih =>
    obtain ⟨other, unnamed⟩ := bodiless p List.mem_cons_self
    obtain ⟨body, form⟩ := ih (s.add bodies consumes p)
      fun q listed => bodiless q (List.mem_cons_of_mem _ listed)
    have plain : (parameterName? p).filter bodies.contains = none := by
      rw [← Option.not_isSome_iff_eq_none, Option.isSome_filter]
      exact unnamed
    rw [List.foldl_cons, body, form]
    unfold Sorted.add
    rw [plain]
    by_cases place : location? p = some "formData"
    · simp [place, isForm]
    · simp [place, other, isForm]

def formTypes : List String := ["multipart/form-data", "application/x-www-form-urlencoded"]

def bodyProperties? (body : Json) : Option Json :=
  (body.field? "content").bind fun content =>
    (formTypes.findSome? content.field?).bind fun media =>
      (media.field? "schema").bind (·.field? "properties")

def formProperties (op : Fields) : Fields :=
  entries ((Keyed.find? "requestBody" op).bind bodyProperties?)

theorem field?_ofPairs (pairs : Fields) (key : String) :
    (Json.ofPairs pairs).field? key = Keyed.find? key pairs.reverse :=
  Keyed.find?_sortedOfList key pairs

/-- The properties that the parameters of a form become; the last one of a name counts. -/
def formTable (form : List Json) : Fields :=
  Keyed.sortedOfList ((form.filterMap formField?).map fun e => (e.1, e.2.2))

theorem field?_content (schema : Json) (type key : String) :
    (content (some schema) [type]).field? key =
      if type = key then some (Json.ofPairs [("schema", schema)]) else none := by
  unfold content
  rw [field?_ofPairs]
  rfl

theorem bodyProperties?_formBody (form : List Json) (consumes : List String) :
    bodyProperties? (formBody consumes form) = some (.object (formTable form)) := by
  obtain ⟨type, known, schema, body, properties⟩ : ∃ type ∈ formTypes, ∃ schema,
      (formBody consumes form).field? "content" = some (content (some schema) [type]) ∧
        schema.field? "properties" = some (.object (formTable form)) := by
    refine ⟨_, ?_, _, field?_ofPairs _ _, ?_⟩
    · split <;> decide
    · rw [field?_ofPairs, List.reverse_append, Keyed.find?_append]
      split <;> rfl
  have media : formTypes.findSome? (content (some schema) [type]).field? =
      some (Json.ofPairs [("schema", schema)]) := by
    rcases List.mem_pair.mp known with rfl | rfl <;>
      simp [formTypes, field?_content]
  unfold bodyProperties?
  rw [body, Option.bind_some, media, Option.bind_some, field?_ofPairs]
  exact properties

theorem mem_formTable {form : List Json} {entry : String × Json} (h : entry ∈ formTable form) :
    (∃ q ∈ form, formName? q = some entry.1) ∧
      ∃ schema, entry.2 = .object schema := by
  obtain ⟨⟨name, required, schema⟩, field, rfl⟩ := List.mem_map.mp (Keyed.mem_sortedOfList h)
  obtain ⟨q, listed, read⟩ := List.mem_filterMap.mp field
  obtain ⟨named, object⟩ := formField?_name read
  exact ⟨⟨q, listed, named⟩, object⟩

theorem find?_formTable {form before after : List Json}
    (whole : form = before ++ .object fields :: after)
    (named : formName? (.object fields) = some name)
    (last : ∀ q ∈ after, formName? q ≠ some name) :
    Keyed.find? name (formTable form) = some (.object (formSchema fields)) := by
  obtain ⟨required, read⟩ := formField?_eq named
  have later : Keyed.find? name
      ((after.filterMap formField?).map fun e => (e.1, e.2.2)).reverse = none := by
    refine Keyed.find?_eq_none.mpr fun listed => ?_
    obtain ⟨⟨_, v⟩, mem, rfl⟩ := List.mem_map.mp listed
    obtain ⟨⟨name, _, _⟩, field, same⟩ := List.mem_map.mp (List.mem_reverse.mp mem)
    cases same
    obtain ⟨q, there, given⟩ := List.mem_filterMap.mp field
    exact last q there (formField?_name given).1
  unfold formTable
  rw [Keyed.find?_sortedOfList, whole, List.filterMap_append, List.filterMap_cons, read,
    List.map_append, List.map_cons, List.reverse_append, List.reverse_cons, List.append_assoc,
    Keyed.find?_append, later]
  simp [Keyed.find?]

theorem not_replaced_of_objects (objects : ∀ entry ∈ fields, ∃ f, entry.2 = .object f)
    (free : key = "nullable" → "x-nullable" ∉ Keyed.keys fields) : ¬Replaced fields key := by
  have textless : ∀ {k s}, Keyed.find? k fields ≠ some (.text s) := by
    intro k s found
    obtain ⟨f, same⟩ := objects _ (Keyed.mem_of_find? found)
    cases same
  have fileless : typeOf? fields ≠ some "file" := by
    intro file
    obtain ⟨v, found, text⟩ := Option.bind_eq_some_iff.mp file
    cases v with
    | text s => exact textless found
    | _ => cases text
  intro replaced
  cases replaced with
  | reference _ _ given => exact textless given
  | nullable given => exact free rfl (Keyed.contains_iff_mem_keys.mp given)
  | type file => exact fileless file
  | format file => exact fileless file

theorem not_replaced_formTable {form : List Json}
    (free : name = "nullable" → ∀ q ∈ form, formName? q ≠ some "x-nullable") :
    ¬Replaced (formTable form) name := by
  refine not_replaced_of_objects (fun entry listed => (mem_formTable listed).2) ?_
  intro called listed
  obtain ⟨entry, there, extension⟩ := List.mem_map.mp listed
  obtain ⟨⟨q, given, text⟩, _⟩ := mem_formTable there
  exact free called q given (text.trans (congrArg some extension))

theorem findSome?_formTypes_modern (content : Json) :
    formTypes.findSome? (modern content).field? =
      (formTypes.findSome? content.field?).map modern := by
  have plain : ∀ type ∈ formTypes, type ∉ spelledKeys := by decide
  have moved : ∀ type ∈ formTypes,
      (modern content).field? type = (content.field? type).map modern :=
    fun type listed => field?_modern (plain type listed) content
  simp only [formTypes, List.mem_cons, List.not_mem_nil, or_false, forall_eq_or_imp,
    forall_eq] at moved
  obtain ⟨first, second⟩ := moved
  simp only [formTypes, List.findSome?_cons, List.findSome?_nil, first, second]
  cases content.field? "multipart/form-data" with
  | none => cases content.field? "application/x-www-form-urlencoded" <;> rfl
  | some media => rfl

theorem bodyProperties?_modern (body : Json) :
    bodyProperties? (modern body) = (bodyProperties? body).map modern := by
  unfold bodyProperties?
  rw [field?_modern (by decide), Option.bind_map, Option.map_bind]
  refine Option.bind_congr fun content _ => ?_
  simp only [Function.comp_apply]
  rw [findSome?_formTypes_modern, Option.bind_map, Option.map_bind]
  refine Option.bind_congr fun media _ => ?_
  simp only [Function.comp_apply]
  rw [field?_modern (by decide), Option.bind_map, Option.map_bind]
  exact Option.bind_congr fun schema _ => field?_modern (by decide) schema

theorem formProperties_modern (op : Fields) :
    formProperties (renameKeywords (Keyed.mapValues modern op)) =
      renameKeywords (Keyed.mapValues modern (formProperties op)) := by
  unfold formProperties
  rw [← entries_modern, find?_renameKeywords (by decide), Keyed.find?_mapValues, Option.bind_map,
    Option.map_bind]
  exact congrArg entries (Option.bind_congr fun body _ => bodyProperties?_modern body)

theorem formProperties_operation {op : Fields} {shared : List Json}
    (bodiless : ∀ p ∈ shared ++ parametersOf (.object op), location? p ≠ some "body" ∧
      (parameterName? p).any bodies.contains ≠ true)
    (form : (shared ++ parametersOf (.object op)).filter isForm ≠ []) :
    formProperties (operation consumes produces bodies shared op) =
      formTable ((shared ++ parametersOf (.object op)).filter isForm) := by
  obtain ⟨body, collected⟩ := Sorted.foldl_form (ownTypes "consumes" op consumes) {} bodiless
  unfold formProperties
  rw [find?_operation_requestBody]
  unfold Sorted.requestBody?
  rw [body, collected, List.nil_append]
  dsimp only
  rw [if_neg (by simpa using form), Option.some_or, Option.bind_some, bodyProperties?_formBody]
  rfl

/-- The parameter that comes of one given in place has a schema that describes its value. -/
def Upgrades (p p' : Json) : Prop :=
  Inline p → ∃ schema, p'.field? "schema" = some schema ∧ Describes schema p

theorem upgrades_modern (p : Json) : Upgrades p (modern (parameter p)) := by
  rintro ⟨fields, rfl, inline⟩
  obtain ⟨schema, given, takes⟩ := parameter_takes inline
  refine ⟨modern (.object schema), ?_, takes.describes⟩
  rw [field?_modern (by decide), given]
  rfl

def plainParametersOf (doc v : Json) : List Json :=
  (parametersOf v).filter fun p => !isRequestParameter (bodyNames doc) p

def IsBody (doc p : Json) : Prop := location? p = some "body" ∨ Refers doc "body" p

/-- Every parameter of an operation has its schema: a plain one in its place, and a form parameter
under its name among the properties of the form. Behind a parameter of the same name it does not
count, and a parameter `x-nullable` takes the place of one called `nullable`. -/
structure DescribesOperation (doc item : Json) (op op' : Fields) : Prop where
  parameters :
    List.Forall₂ Upgrades (plainParametersOf doc (.object op)) (parametersOf (.object op'))
  form : (∀ p ∈ parametersOf item ++ parametersOf (.object op), ¬IsBody doc p) →
    ∀ before p after name, parametersOf item ++ parametersOf (.object op) = before ++ p :: after →
      Inline p → isForm p → formName? p = some name →
      (∀ q ∈ after, isForm q → formName? q ≠ some name) →
      (name = "nullable" → ∀ q ∈ parametersOf item ++ parametersOf (.object op), isForm q →
        formName? q ≠ some "x-nullable") →
      ∃ schema, Keyed.find? (respelled name) (formProperties op') = some schema ∧
        Describes schema p

structure DescribesItem (doc item item' : Json) : Prop where
  parameters : List.Forall₂ Upgrades (plainParametersOf doc item) (parametersOf item')
  operations : ∀ verb ∈ verbs,
    Option.Rel (DescribesOperation doc item) (operation? item verb) (operation? item' verb)

theorem forall₂_upgrades (params : List Json) :
    List.Forall₂ Upgrades params ((params.map parameter).map modern) := by
  rw [List.map_map, List.forall₂_map_right_iff]
  exact List.forall₂_same.mpr fun p _ => upgrades_modern p

theorem filter_handed (keep request : Json → Bool) (params own : List Json)
    (inside : ∀ p, keep p = true → request p = true) :
    (params.filter request ++ own).filter keep = (params ++ own).filter keep := by
  rw [List.filter_append, List.filter_append, List.filter_filter]
  congr 1
  refine List.filter_congr fun p _ => ?_
  cases kept : keep p with
  | true => simp [inside p kept]
  | false => rfl

/-- An operation with the body and form parameters of its path. -/
def operationOf (consumes produces : List String) (doc item : Json) (op : Fields) : Fields :=
  operation consumes produces (bodyNames doc)
    ((parametersOf item).filter (isRequestParameter (bodyNames doc))) op

theorem parametersOf_operationOf (doc item : Json) (op : Fields) :
    parametersOf (.object (operationOf consumes produces doc item op)) =
      (plainParametersOf doc (.object op)).map parameter := by
  have none : (parametersOf item).filter (fun p => !isRequestParameter (bodyNames doc) p &&
      isRequestParameter (bodyNames doc) p) = [] := by
    simp
  rw [operationOf, parametersOf_operation, List.filter_append, List.filter_filter, none]
  rfl

theorem formProperties_operationOf {doc item : Json} {op : Fields}
    (bodiless : ∀ p ∈ parametersOf item ++ parametersOf (.object op), ¬IsBody doc p)
    (form : (parametersOf item ++ parametersOf (.object op)).filter isForm ≠ []) :
    formProperties (operationOf consumes produces doc item op) =
      formTable ((parametersOf item ++ parametersOf (.object op)).filter isForm) := by
  have handed := filter_handed isForm (isRequestParameter (bodyNames doc)) (parametersOf item)
    (parametersOf (.object op))
    fun p form => isRequestParameter_iff.mpr (.inl (.inr (beq_iff_eq.mp form)))
  rw [operationOf, formProperties_operation, handed]
  · intro p listed
    have there : p ∈ parametersOf item ++ parametersOf (.object op) := by
      rcases List.mem_append.mp listed with shared | own
      · exact List.mem_append_left _ (List.mem_filter.mp shared).1
      · exact List.mem_append_right _ own
    have none := bodiless p there
    exact ⟨fun body => none (.inl body), fun named => none (.inr (named_bodyNames.mp named))⟩
  · rwa [handed]

theorem operation_describes (doc item : Json) (op : Fields) :
    DescribesOperation doc item op
      (renameKeywords (Keyed.mapValues modern (operationOf consumes produces doc item op))) where
  parameters := by
    rw [← modern_object, parametersOf_modern, parametersOf_operationOf]
    exact forall₂_upgrades _
  form := by
    rintro bodiless before p after name whole ⟨fields, rfl, inline⟩ place named last free
    have split : (parametersOf item ++ parametersOf (.object op)).filter isForm =
        before.filter isForm ++ .object fields :: after.filter isForm := by
      rw [whole, List.filter_append, List.filter_cons_of_pos place]
    have found := find?_formTable split named fun q listed =>
      last q (List.mem_filter.mp listed).1 (List.mem_filter.mp listed).2
    have alone : ¬Replaced (formTable ((parametersOf item ++ parametersOf (.object op)).filter
        isForm)) name := not_replaced_formTable fun called q listed =>
      free called q (List.mem_filter.mp listed).1 (List.mem_filter.mp listed).2
    refine ⟨modern (.object (formSchema fields)), ?_, (formSchema_takes fields).describes⟩
    rw [formProperties_modern, formProperties_operationOf bodiless (by simp [split])]
    refine find?_renameKeywords_kept ?_ fun replaced =>
      alone (replaced_mapValues text?_modern replaced)
    rw [Keyed.find?_mapValues, found]
    rfl

theorem pathItem_describes (consumes produces : List String) (doc item : Json) :
    DescribesItem doc item (modern (pathItem consumes produces (bodyNames doc) item)) where
  parameters := by
    rw [parametersOf_modern, parametersOf_pathItem]
    exact forall₂_upgrades _
  operations := by
    intro verb known
    have plain : verb ∉ spelledKeys := by
      have apart : ∀ verb ∈ verbs, verb ∉ spelledKeys := by decide
      exact apart verb known
    rw [operation?_modern plain, operation?_pathItem known]
    cases operation? item verb with
    | none => exact .none
    | some op => exact .some (operation_describes doc item op)

theorem text?_parameter (p : Json) : (parameter p).text? = p.text? := by
  cases p with
  | object fields =>
    simp only [parameter]
    split <;> rfl
  | _ => rfl

theorem text?_pathItem (item : Json) :
    (pathItem consumes produces bodies item).text? = item.text? := by
  cases item <;> rfl

def plainParameters (doc : Json) : Fields :=
  (sharedParametersOf doc).filter fun p => location? p.2 != some "body"

/-- Every keyword of the list goes into the schema of its parameter, in place, of a path or shared,
and into the property of a form. Whether the value may be missing is not on the list, so that no
parameter has a nullable schema unless its type says so. -/
theorem upgrade_parameter_schemas {doc doc' : Json} (swagger : isSwagger doc)
    (run : upgrade doc = .ok doc') :
    (∀ name p, Keyed.find? name (plainParameters doc) = some p →
      ¬Replaced (plainParameters doc) name →
      ∃ p', Keyed.find? (respelled name) (componentParameters doc') = some p' ∧ Upgrades p p') ∧
    (∀ route item, Keyed.find? route (paths doc) = some item → ¬Replaced (paths doc) route →
      ∃ item', Keyed.find? (respelled route) (paths doc') = some item' ∧
        DescribesItem doc item item') := by
  obtain ⟨consumes, produces, root, rfl, rfl⟩ := upgrade_eq_ok swagger run
  rw [paths_upgradedRoot, componentParameters_upgradedRoot]
  refine ⟨?_, ?_⟩
  · intro name p found kept
    refine ⟨modern (parameter p), find?_renameKeywords_kept ?_ fun replaced => kept ?_,
      upgrades_modern p⟩
    · rw [Keyed.find?_mapValues, Keyed.find?_mapValues]
      exact congrArg (Option.map modern ∘ Option.map parameter) found
    · exact replaced_mapValues text?_parameter (replaced_mapValues text?_modern replaced)
  · intro route item found kept
    refine ⟨modern (pathItem consumes produces (bodyNames (.object root)) item),
      find?_renameKeywords_kept ?_ fun replaced => kept ?_,
      pathItem_describes consumes produces _ item⟩
    · rw [Keyed.find?_mapValues, Keyed.find?_mapValues, found]
      rfl
    · exact replaced_mapValues text?_pathItem (replaced_mapValues text?_modern replaced)

def limitParameter : Json := .object
  [("in", .text "query"), ("name", .text "limit"), ("type", .text "integer"),
   ("x-nullable", .bool true)]

def noteParameter : Json := .object
  [("in", .text "formData"), ("name", .text "note"), ("type", .text "string"),
   ("x-nullable", .bool true)]

def notesItem : Json := .object [("post", .object [("parameters", .array [noteParameter])])]

def notesDoc : Json := .object
  [("parameters", .object [("Limit", limitParameter)]),
   ("paths", .object [("/notes", notesItem)]),
   ("swagger", .text "2.0")]

theorem upgrade_parameter_schemas_notes :
    ∃ (doc' limit schema item' note : Json) (post : Fields), isSwagger notesDoc ∧
      upgrade notesDoc = .ok doc' ∧
      Keyed.find? "Limit" (componentParameters doc') = some limit ∧
      limit.field? "schema" = some schema ∧ schema.field? "type" = some (.text "integer") ∧
      schema.field? "nullable" = none ∧
      Keyed.find? "/notes" (paths doc') = some item' ∧ operation? item' "post" = some post ∧
      Keyed.find? "note" (formProperties post) = some note ∧
      note.field? "type" = some (.text "string") ∧ note.field? "nullable" = none := by
  have swagger : isSwagger notesDoc := rfl
  have run : upgrade notesDoc = .ok (modern (.object (upgradedRoot [defaultMediaType]
    [defaultMediaType] ((fields? notesDoc).getD [])))) := rfl
  obtain ⟨shared, routes⟩ := upgrade_parameter_schemas swagger run
  obtain ⟨limit, limited, upgrades⟩ := shared "Limit" limitParameter rfl
    (not_replaced (by decide))
  obtain ⟨schema, given, describes⟩ := upgrades ⟨_, rfl, by decide⟩
  obtain ⟨item', there, items⟩ := routes "/notes" notesItem rfl
    (not_replaced (by decide))
  have posts := items.operations "post" (by decide)
  generalize posted : operation? item' "post" = post at posts
  cases posts with
  | some form =>
    obtain ⟨note, property, noted⟩ := form.form
      (by
        intro p listed
        cases List.mem_singleton.mp (show p ∈ [noteParameter] from listed)
        have plain : isRequestParameter [] noteParameter = true := by decide
        rintro (place | named)
        · exact absurd place (by decide)
        · exact absurd (named_bodyNames.mpr named) (by decide))
      [] noteParameter [] "note" rfl ⟨_, rfl, by decide⟩ (by decide) rfl
      (by rintro q ⟨⟩) (by decide)
    have limit_type : schema.field? "type" = some (.text "integer") :=
      describes.keywords "type" (by decide)
    have limit_plain := describes.others "nullable" (by decide) (by decide)
    have note_type : note.field? "type" = some (.text "string") :=
      noted.keywords "type" (by decide)
    have note_plain := noted.others "nullable" (by decide) (by decide)
    exact ⟨_, limit, schema, item', note, _, swagger, run, limited, given, limit_type, limit_plain,
      there, posted, property, note_type, note_plain⟩

end TypedClients.Swagger
