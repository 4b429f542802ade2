import TypedClients.Operation.Build
import TypedClients.Proofs.ModelNames
import TypedClients.Proofs.References

namespace TypedClients

open Outcome

def TypedBy (type : TypeExpr) (schema : Option SchemaRef) : Prop :=
  type = schemaType schema ∨ (type.refs = [] ∧ schema = none)

theorem TypedBy.mentions {type : TypeExpr} {schema : Option SchemaRef} (h : TypedBy type schema)
    {m : String} (mem : m ∈ type.refs) : ∃ r, schema = some r ∧ r.MentionsModel m := by
  rcases h with rfl | ⟨plain, _⟩
  · exact schemaType_refs mem
  · rw [plain] at mem
    cases mem

theorem mem_insertParameter {p q : Parameter} {ps : List Parameter} (h : q ∈ insertParameter p ps) :
    q = p ∨ q ∈ ps := by
  induction ps with
  | nil => exact .inl (List.mem_singleton.mp h)
  | cons first rest ih =>
    rw [insertParameter] at h
    split at h
    · rcases List.mem_cons.mp h with same | h
      · exact .inl same
      · exact .inr (List.mem_cons_of_mem _ h)
    · rcases List.mem_cons.mp h with same | h
      · exact .inr (same ▸ List.mem_cons_self)
      · exact (ih h).imp id (List.mem_cons_of_mem _)

theorem mem_mergeParameters {shared own : List (Referenced Parameter)} {p : Parameter}
    (h : p ∈ mergeParameters shared own) : .item p ∈ shared ∨ .item p ∈ own := by
  have folded : ∀ ps acc : List Parameter,
      p ∈ ps.foldl (fun acc p => insertParameter p acc) acc → p ∈ acc ∨ p ∈ ps := by
    intro ps
    induction ps with
    | nil => exact fun _ h => .inl h
    | cons q rest ih =>
      intro acc h
      rcases ih _ h with earlier | later
      · rcases mem_insertParameter earlier with rfl | earlier
        · exact .inr List.mem_cons_self
        · exact .inl earlier
      · exact .inr (List.mem_cons_of_mem _ later)
  rcases folded _ [] h with none | given
  · cases none
  · obtain ⟨r, listed, same⟩ := List.mem_filterMap.mp given
    cases r with
    | ref path => cases same
    | item q =>
      cases same
      exact List.mem_append.mp listed

theorem mem_addPlaceholder {params : List Param} {name : String} {p : Param}
    (h : p ∈ addPlaceholder params name) : p ∈ params ∨ p = .undeclared name := by
  unfold addPlaceholder at h
  split at h
  · exact .inl h
  · rcases List.mem_append.mp h with earlier | last
    · exact .inl earlier
    · exact .inr (List.mem_singleton.mp last)

theorem mem_orderPathParams {route : String} {params : List Param} {p : Param}
    (h : p ∈ orderPathParams route params) : p ∈ params ∨ ∃ name, p = .undeclared name := by
  have folded : ∀ (names : List String) (acc : List Param),
      p ∈ names.foldl addPlaceholder acc → p ∈ acc ∨ ∃ name, p = .undeclared name := by
    intro names
    induction names with
    | nil => exact fun _ h => .inl h
    | cons name rest ih =>
      intro acc h
      rcases ih _ h with earlier | added
      · rcases mem_addPlaceholder earlier with earlier | same
        · exact .inl earlier
        · exact .inr ⟨name, same⟩
      · exact .inr added
  unfold orderPathParams at h
  exact folded _ _ ((List.mergeSort_perm _ _).mem_iff.mp h)

theorem mem_preferredContent {b : RequestBody} {x : String × MediaType}
    (h : b.preferredContent? = some x) : x ∈ b.content := by
  unfold RequestBody.preferredContent? at h
  rw [Option.orElse_eq_or, Option.orElse_eq_or, Option.or_eq_some_iff, Option.or_eq_some_iff] at h
  rcases h with json | ⟨_, flavour | ⟨_, first⟩⟩
  · exact List.mem_of_find?_eq_some json
  · exact List.mem_of_find?_eq_some flavour
  · exact List.mem_of_mem_head? first

theorem mem_responseVariants {operation status : String} {r : Response} {v : Variant}
    (h : v ∈ responseVariants operation status r) : TypedBy v.type v.schema ∧
      (v.schema = none ∨ ∃ type media, (type, media) ∈ r.content ∧ v.schema = media.schema) := by
  unfold responseVariants at h
  dsimp only at h
  split at h
  · have same := List.mem_singleton.mp h
    subst same
    exact ⟨.inr ⟨rfl, rfl⟩, .inl rfl⟩
  · obtain ⟨⟨type, media⟩, listed, rfl⟩ := List.mem_map.mp h
    exact ⟨.inl rfl, .inr ⟨type, media, listed, rfl⟩⟩

theorem mem_variants {operation : String} {responses : List (String × Referenced Response)}
    {v : Variant} (h : v ∈ (Responses.build operation responses).variants) :
    TypedBy v.type v.schema ∧ (v.schema = none ∨ ∃ status r type media,
      (status, .item r) ∈ responses ∧ (type, media) ∈ r.content ∧ v.schema = media.schema) := by
  have declared : ∀ status r, (status, .item r) ∈ responses →
      v ∈ responseVariants operation status r → TypedBy v.type v.schema ∧
        (v.schema = none ∨ ∃ status r type media, (status, .item r) ∈ responses ∧
          (type, media) ∈ r.content ∧ v.schema = media.schema) := by
    intro status r listed mem
    obtain ⟨typed, none | ⟨type, media, content, schema⟩⟩ := mem_responseVariants mem
    · exact ⟨typed, .inl none⟩
    · exact ⟨typed, .inr ⟨status, r, type, media, listed, content, schema⟩⟩
  unfold Responses.build Responses.variants at h
  dsimp only at h
  rcases List.mem_append.mp h with success | failure
  · split at success
    · have same := List.mem_singleton.mp success
      subst same
      exact ⟨.inr ⟨rfl, rfl⟩, .inl rfl⟩
    · obtain ⟨⟨status, r⟩, listed, mem⟩ := List.mem_flatMap.mp (List.mem_filter.mp success).1
      cases r with
      | ref path => cases mem
      | item r => exact declared status r listed mem
  · obtain ⟨⟨status, r⟩, listed, mem⟩ := List.mem_flatMap.mp (List.mem_filter.mp failure).1
    cases r with
    | ref path => cases mem
    | item r => exact declared status r listed mem

theorem buildBody_eq_ok {location : String} {o : Option (Referenced RequestBody)} {b : Body}
    (h : buildBody location o = .ok (some b)) : TypedBy b.type b.schema ∧
      ∃ a type media, o = some (.item a) ∧ (type, media) ∈ a.content ∧ b.schema = media.schema := by
  unfold buildBody at h
  split at h
  · cases h
  · cases h
  · rename_i a
    cases found : a.preferredContent? with
    | none => rw [found] at h; cases h
    | some x =>
      rw [found] at h
      cases h
      exact ⟨.inl rfl, a, x.1, x.2, rfl, mem_preferredContent found, rfl⟩

/-- Types and schemas of an operation belong together, and the schemas stand in the operation. -/
structure Endpoint.BuiltFrom (e : Endpoint) (shared : List (Referenced Parameter))
    (op : Operation) : Prop where
  name : ∃ source, e.name = Name.ofText source
  params : ∀ p ∈ e.params, TypedBy p.type p.schema ∧ (p.schema = none ∨ ∃ q : Parameter,
    (.item q ∈ shared ∨ .item q ∈ op.parameters) ∧ p.schema = q.schema)
  body : ∀ b, e.body = some b → TypedBy b.type b.schema ∧ ∃ a type media,
    op.requestBody = some (.item a) ∧ (type, media) ∈ a.content ∧ b.schema = media.schema
  variants : ∀ v ∈ e.response.variants, TypedBy v.type v.schema ∧ (v.schema = none ∨
    ∃ status r type media, (status, .item r) ∈ op.responses ∧ (type, media) ∈ r.content ∧
      v.schema = media.schema)

theorem Endpoint.build_builtFrom {arena : Arena} {target : Target} {route : String}
    {shared : List (Referenced Parameter)} {verb : Verb} {op : Operation} {e : Endpoint}
    (h : Endpoint.build arena target route shared verb op = .ok e) : e.BuiltFrom shared op := by
  unfold Endpoint.build at h
  simp only [bind_eq_ok, pure_eq_ok] at h
  obtain ⟨body, body_run, rfl⟩ := h
  have parameter : ∀ (explode : Bool) (q : Parameter) (p : Param),
      q ∈ mergeParameters shared op.parameters → p = .ofParameter arena explode q →
      TypedBy p.type p.schema ∧ (p.schema = none ∨ ∃ q : Parameter,
        (.item q ∈ shared ∨ .item q ∈ op.parameters) ∧ p.schema = q.schema) := by
    intro explode q p merged same
    subst same
    exact ⟨.inl rfl, .inr ⟨q, mem_mergeParameters merged, rfl⟩⟩
  constructor
  · exact ⟨_, rfl⟩
  · intro p mem
    simp only [params, List.mem_append] at mem
    rcases mem with (path | query) | header
    · rcases mem_orderPathParams path with declared | ⟨name, rfl⟩
      · obtain ⟨q, located, same⟩ := List.mem_map.mp declared
        exact parameter _ q p (List.mem_filter.mp located).1 same.symm
      · exact ⟨.inr ⟨rfl, rfl⟩, .inl rfl⟩
    · obtain ⟨q, located, same⟩ := List.mem_map.mp query
      exact parameter _ q p (List.mem_filter.mp located).1 same.symm
    · obtain ⟨q, located, same⟩ := List.mem_map.mp header
      exact parameter _ q p (List.mem_filter.mp located).1 same.symm
  · intro b same
    subst same
    exact buildBody_eq_ok body_run
  · intro v mem
    exact mem_variants mem

namespace Endpoint.BuiltFrom

variable {e : Endpoint} {shared : List (Referenced Parameter)} {op : Operation}

theorem modelRefs (h : e.BuiltFrom shared op) {m : String} (mem : m ∈ e.modelRefs) :
    ∃ r ∈ e.schemaRoots, r.MentionsModel m := by
  unfold Endpoint.modelRefs at mem
  rw [Names.mem_ofList] at mem
  rcases List.mem_append.mp mem with mem | mem
  · rcases List.mem_append.mp mem with mem | mem
    · obtain ⟨p, listed, mem⟩ := List.mem_flatMap.mp mem
      obtain ⟨r, schema, mentioned⟩ := (h.params p listed).1.mentions mem
      have root : r ∈ e.params.filterMap (·.schema) := List.mem_filterMap.mpr ⟨p, listed, schema⟩
      exact ⟨r, List.mem_append_left _ (List.mem_append_left _ root), mentioned⟩
    · cases given : e.body with
      | none => rw [given] at mem; cases mem
      | some b =>
        rw [given] at mem
        obtain ⟨r, schema, mentioned⟩ := (h.body b given).1.mentions mem
        have root : r ∈ (e.body.bind (·.schema)).toList := by
          rw [given]
          exact Option.mem_toList.mpr schema
        exact ⟨r, List.mem_append_left _ (List.mem_append_right _ root), mentioned⟩
  · obtain ⟨v, listed, mem⟩ := List.mem_flatMap.mp mem
    obtain ⟨r, schema, mentioned⟩ := (h.variants v listed).1.mentions mem
    have root : r ∈ e.response.variants.filterMap (·.schema) :=
      List.mem_filterMap.mpr ⟨v, listed, schema⟩
    exact ⟨r, List.mem_append_right _ root, mentioned⟩

theorem schemaRoots (h : e.BuiltFrom shared op) {r : SchemaRef} (root : r ∈ e.schemaRoots) :
    (∃ q : Parameter, .item q ∈ shared ∧ q.schema = some r) ∨ op.Uses r := by
  rcases List.mem_append.mp root with root | root
  · rcases List.mem_append.mp root with root | root
    · obtain ⟨p, listed, schema⟩ := List.mem_filterMap.mp root
      rcases (h.params p listed).2 with none | ⟨q, declared, same⟩
      · rw [none] at schema
        cases schema
      · have given : q.schema = some r := same.symm.trans schema
        rcases declared with shared | own
        · exact .inl ⟨q, shared, given⟩
        · exact .inr (.parameter own given)
    · cases given : e.body with
      | none => rw [given] at root; cases root
      | some b =>
        rw [given] at root
        obtain ⟨a, type, media, body, content, same⟩ := (h.body b given).2
        exact .inr (.requestBody body content (same.symm.trans (Option.mem_toList.mp root)))
  · obtain ⟨v, listed, schema⟩ := List.mem_filterMap.mp root
    rcases (h.variants v listed).2 with none | ⟨status, r, type, media, answer, content, same⟩
    · rw [none] at schema
      cases schema
    · exact .inr (.response answer content (same.symm.trans schema))

end Endpoint.BuiltFrom

theorem mem_selectedOperations {target : Target} {paths : List (String × PathItem)}
    {route : String} {item : PathItem} {verb : Verb} {op : Operation}
    (h : (route, item, verb, op) ∈ selectedOperations target paths) :
    (route, item) ∈ paths ∧ (verb, op) ∈ item.operations := by
  obtain ⟨⟨r, i⟩, listed, mem⟩ := List.mem_flatMap.mp h
  obtain ⟨⟨v, o⟩, kept, same⟩ := List.mem_map.mp mem
  cases same
  exact ⟨listed, (List.mem_filter.mp kept).1⟩

theorem buildEndpoints_builtFrom {resolved : Resolved} {target : Target}
    {endpoints : List Endpoint} (h : buildEndpoints resolved target = .ok endpoints) {e : Endpoint}
    (mem : e ∈ endpoints) : ∃ shared op, e.BuiltFrom shared op ∧
      ∀ r ∈ e.schemaRoots, resolved.document.Uses r := by
  obtain ⟨⟨route, item, verb, op⟩, selected, run⟩ := mem_of_mapM h mem
  have built := Endpoint.build_builtFrom run
  obtain ⟨listed, own⟩ := mem_selectedOperations selected
  refine ⟨item.parameters, op, built, fun r root => .path listed ?_⟩
  rcases built.schemaRoots root with ⟨q, shared, schema⟩ | uses
  · exact .parameter shared schema
  · exact .operation own uses

theorem buildEndpoints_named {resolved : Resolved} {target : Target} {endpoints : List Endpoint}
    (h : buildEndpoints resolved target = .ok endpoints) :
    ∀ e ∈ endpoints, ∃ source, e.name = Name.ofText source := by
  intro e mem
  obtain ⟨_, _, built, _⟩ := buildEndpoints_builtFrom h mem
  exact built.name

end TypedClients
