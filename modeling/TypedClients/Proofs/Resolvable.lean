import TypedClients.Proofs.Components
import TypedClients.Proofs.Respelling
import TypedClients.Proofs.WellFormed

namespace TypedClients.Document

open Outcome

inductive AsksParameter (doc : Document) (r : Referenced Parameter) : Prop where
  | shared {route : String} {item : PathItem} (path : (route, item) ∈ doc.paths)
      (h : r ∈ item.parameters)
  | own {route : String} {item : PathItem} {verb : Verb} {op : Operation}
      (path : (route, item) ∈ doc.paths) (operation : (verb, op) ∈ item.operations)
      (h : r ∈ op.parameters)

def AsksRequestBody (doc : Document) (r : Referenced RequestBody) : Prop :=
  ∃ route item verb op, (route, item) ∈ doc.paths ∧ (verb, op) ∈ item.operations ∧
    op.requestBody = some r

def AsksResponse (doc : Document) (r : Referenced Response) : Prop :=
  ∃ route item verb op status, (route, item) ∈ doc.paths ∧ (verb, op) ∈ item.operations ∧
    (status, r) ∈ op.responses

/-- A schema of something that an operation asks for, or one that is declared under a name. -/
inductive Demands (doc : Document) (s : SchemaRef) : Prop where
  | parameter {r : Referenced Parameter} {p : Parameter} (asked : doc.AsksParameter r)
      (ends : doc.parameterTable.Ends r p) (schema : p.schema = some s)
  | requestBody {r : Referenced RequestBody} {b : RequestBody} {type : String} {media : MediaType}
      (asked : doc.AsksRequestBody r) (ends : doc.requestBodyTable.Ends r b)
      (content : (type, media) ∈ b.content) (schema : media.schema = some s)
  | response {r : Referenced Response} {b : Response} {type : String} {media : MediaType}
      (asked : doc.AsksResponse r) (ends : doc.responseTable.Ends r b)
      (content : (type, media) ∈ b.content) (schema : media.schema = some s)
  | component {name : String} (h : (name, s) ∈ doc.componentSchemas)
  | definition {name : String} (h : (name, s) ∈ doc.definitions)
      (unshadowed : name ∉ Keyed.keys doc.componentSchemas)

/-- Every reference of a document leads somewhere. -/
structure Linked (doc : Document) : Prop where
  parameters : ∀ r, doc.AsksParameter r → ∃ p, doc.parameterTable.Ends r p
  requestBodies : ∀ r, doc.AsksRequestBody r → ∃ b, doc.requestBodyTable.Ends r b
  responses : ∀ r, doc.AsksResponse r → ∃ b, doc.responseTable.Ends r b
  references : ∀ s, doc.Demands s → ∀ path, s.Mentions path →
    ∃ n, Pointer.Names path n ∧ doc.declares n = true
  acyclic : ∀ n, ¬ Relation.TransGen doc.declaredArena.AliasOf n n

variable {doc : Document}

theorem parameterTable_flat : '/' ∉ doc.parameterTable.kind.toList := by
  show '/' ∉ "parameters".toList
  decide

theorem requestBodyTable_flat : '/' ∉ doc.requestBodyTable.kind.toList := by
  show '/' ∉ "requestBodies".toList
  decide

theorem responseTable_flat : '/' ∉ doc.responseTable.kind.toList := by
  show '/' ∉ "responses".toList
  decide

variable {location : String}

theorem checkOption_succeeds {o : Option SchemaRef} :
    Succeeds (doc.checkOption location o) ↔ ∀ s, o = some s → doc.Knows s := by
  unfold checkOption
  cases o with
  | none => exact iff_of_true ⟨none, rfl⟩ fun _ absent => by cases absent
  | some source =>
    rw [succeeds_map]
    constructor
    · intro given s same
      obtain ⟨t, run⟩ := given
      cases same
      exact (checkSchema_iff.mp run).2
    · intro known
      exact ⟨_, checkSchema_iff.mpr ⟨rfl, known source rfl⟩⟩

def FindsParameter (doc : Document) (r : Referenced Parameter) : Prop :=
  ∃ p, doc.parameterTable.Ends r p ∧ ∀ s, p.schema = some s → doc.Knows s

def KnowsContent (doc : Document) (content : List (String × MediaType)) : Prop :=
  ∀ x ∈ content, ∀ s, x.2.schema = some s → doc.Knows s

def FindsRequestBody (doc : Document) (r : Referenced RequestBody) : Prop :=
  ∃ b, doc.requestBodyTable.Ends r b ∧ doc.KnowsContent b.content

def FindsResponse (doc : Document) (r : Referenced Response) : Prop :=
  ∃ b, doc.responseTable.Ends r b ∧ doc.KnowsContent b.content

theorem resolveParameter_succeeds {r : Referenced Parameter} :
    Succeeds (doc.resolveParameter location r) ↔ doc.FindsParameter r := by
  unfold resolveParameter FindsParameter
  rw [succeeds_bind]
  simp only [succeeds_bind_pure, checkOption_succeeds,
    ComponentTable.follow_iff parameterTable_flat]

theorem resolveParameters_succeeds {rs : List (Referenced Parameter)} :
    Succeeds (doc.resolveParameters location rs) ↔ ∀ r ∈ rs, doc.FindsParameter r := by
  unfold resolveParameters
  rw [succeeds_mapM]
  simp only [succeeds_map, resolveParameter_succeeds]
  constructor
  · intro given r listed
    obtain ⟨i, bound, rfl⟩ := List.mem_iff_getElem.mp listed
    exact given (rs[i], i) (List.mk_mem_zipIdx_iff_getElem?.mpr (List.getElem?_eq_getElem bound))
  · intro given p numbered
    exact given p.1 (List.fst_mem_of_mem_zipIdx numbered)

theorem resolveContent_succeeds {content : List (String × MediaType)} :
    Succeeds (doc.resolveContent location content) ↔ doc.KnowsContent content := by
  unfold resolveContent KnowsContent
  rw [succeeds_mapM]
  simp only [succeeds_bind_pure, checkOption_succeeds]

theorem resolveRequestBody_succeeds {r : Referenced RequestBody} :
    Succeeds (doc.resolveRequestBody location r) ↔ doc.FindsRequestBody r := by
  unfold resolveRequestBody FindsRequestBody
  rw [succeeds_bind]
  simp only [succeeds_bind_pure, resolveContent_succeeds,
    ComponentTable.follow_iff requestBodyTable_flat]

theorem resolveOptionalBody_succeeds {o : Option (Referenced RequestBody)} :
    Succeeds (doc.resolveOptionalBody location o) ↔ ∀ r, o = some r → doc.FindsRequestBody r := by
  cases o with
  | none => exact iff_of_true ⟨none, rfl⟩ fun _ absent => by cases absent
  | some r =>
    unfold resolveOptionalBody
    rw [succeeds_map, resolveRequestBody_succeeds]
    simp only [Option.some.injEq, forall_eq']

theorem resolveResponse_succeeds {r : Referenced Response} :
    Succeeds (doc.resolveResponse location r) ↔ doc.FindsResponse r := by
  unfold resolveResponse FindsResponse
  rw [succeeds_bind]
  simp only [succeeds_bind_pure, resolveContent_succeeds,
    ComponentTable.follow_iff responseTable_flat]

def FindsOperation (doc : Document) (op : Operation) : Prop :=
  (∀ r ∈ op.parameters, doc.FindsParameter r) ∧
    (∀ r, op.requestBody = some r → doc.FindsRequestBody r) ∧
      ∀ x ∈ op.responses, doc.FindsResponse x.2

theorem resolveOperation_succeeds {op : Operation} :
    Succeeds (doc.resolveOperation location op) ↔ doc.FindsOperation op := by
  unfold resolveOperation FindsOperation
  rw [← resolveParameters_succeeds, ← resolveOptionalBody_succeeds]
  refine succeeds_bind_of fun _ => succeeds_bind_of fun _ => ?_
  rw [succeeds_bind_pure, succeeds_mapM]
  simp only [succeeds_bind_pure, resolveResponse_succeeds]

theorem resolvePathItem_succeeds {item : PathItem} :
    Succeeds (doc.resolvePathItem location item) ↔ (∀ r ∈ item.parameters, doc.FindsParameter r) ∧
      ∀ x ∈ item.operations, doc.FindsOperation x.2 := by
  unfold resolvePathItem
  rw [← resolveParameters_succeeds]
  refine succeeds_bind_of fun _ => ?_
  rw [succeeds_bind_pure, succeeds_mapM]
  simp only [succeeds_bind_pure, resolveOperation_succeeds]

theorem resolvePaths_succeeds : Succeeds doc.resolvePaths ↔
    (∀ r, doc.AsksParameter r → doc.FindsParameter r) ∧
      (∀ r, doc.AsksRequestBody r → doc.FindsRequestBody r) ∧
        ∀ r, doc.AsksResponse r → doc.FindsResponse r := by
  unfold resolvePaths
  rw [succeeds_mapM]
  simp only [succeeds_bind_pure, resolvePathItem_succeeds]
  constructor
  · intro given
    refine ⟨fun r asked => ?_, fun r asked => ?_, fun r asked => ?_⟩
    · cases asked with
      | shared path h => exact (given _ path).1 r h
      | own path operation h => exact ((given _ path).2 _ operation).1 r h
    · obtain ⟨_, _, _, _, path, operation, h⟩ := asked
      exact ((given _ path).2 _ operation).2.1 r h
    · obtain ⟨_, _, _, _, _, path, operation, h⟩ := asked
      exact ((given _ path).2 _ operation).2.2 _ h
  · intro given x path
    obtain ⟨parameters, requestBodies, responses⟩ := given
    refine ⟨fun r h => parameters r (.shared path h), fun y operation => ⟨?_, ?_, ?_⟩⟩
    · exact fun r h => parameters r (.own path operation h)
    · exact fun r h => requestBodies r ⟨_, _, _, _, path, operation, h⟩
    · exact fun z h => responses z.2 ⟨_, _, _, _, z.1, path, operation, h⟩

theorem knows_iff {s : SchemaRef} : doc.Knows s ↔
    ∀ path, s.Mentions path → ∃ n, Pointer.Names path n ∧ doc.declares n = true := by
  unfold Knows
  simp only [Pointer.schemaName?_eq_some]

/-- A mapping target is a reference to a declared schema, or its bare name if that has no slash. -/
def MapsTo (doc : Document) (target : String) : Prop :=
  ∃ n, doc.declares n = true ∧
    (Pointer.Names target n ∨ ('/' ∉ target.toList ∧ target = n))

theorem declaredArena_closed (known : ∀ n s, (n, s) ∈ doc.declaredSchemas → doc.Knows s)
    {n path : String} (found : doc.declaredArena.find? n = some (.ref path)) :
    ∃ m ∈ doc.declaredArena.names, Pointer.schemaName? path = some m := by
  obtain ⟨m, named, declared⟩ := known n _ (Keyed.mem_of_find? found) path (.here path)
  exact ⟨m, declares_iff.mp declared, named⟩

theorem Linked.demands (linked : doc.Linked) {s : SchemaRef} (demanded : doc.Demands s) :
    doc.Knows s := knows_iff.mpr (linked.references s demanded)

theorem Linked.paths (linked : doc.Linked) : Succeeds doc.resolvePaths := by
  refine resolvePaths_succeeds.mpr ⟨fun r asked => ?_, fun r asked => ?_, fun r asked => ?_⟩
  · obtain ⟨p, ends⟩ := linked.parameters r asked
    exact ⟨p, ends, fun s schema => linked.demands (.parameter asked ends schema)⟩
  · obtain ⟨b, ends⟩ := linked.requestBodies r asked
    exact ⟨b, ends, fun x content s schema =>
      linked.demands (.requestBody asked ends content schema)⟩
  · obtain ⟨b, ends⟩ := linked.responses r asked
    exact ⟨b, ends, fun x content s schema => linked.demands (.response asked ends content schema)⟩

theorem linked_iff (distinct : doc.Distinct) : doc.Linked ↔ Succeeds doc.resolvePaths ∧
    (∀ n s, (n, s) ∈ doc.declaredSchemas → doc.Knows s) ∧
      ∀ n ∈ doc.declaredArena.names, ∃ t, doc.declaredArena.StandsFor n t := by
  constructor
  · intro linked
    have known : ∀ n s, (n, s) ∈ doc.declaredSchemas → doc.Knows s := by
      intro n s listed
      rcases distinct.mem_declaredSchemas.mp listed with component | ⟨definition, unshadowed⟩
      · exact linked.demands (.component component)
      · exact linked.demands (.definition definition unshadowed)
    refine ⟨linked.paths, known, fun n mem => ?_⟩
    apply Arena.standsFor_of_acyclic _ linked.acyclic mem
    intro n path stored
    exact declaredArena_closed known stored
  · intro given
    obtain ⟨paths, known, stands⟩ := given
    obtain ⟨parameters, requestBodies, responses⟩ := resolvePaths_succeeds.mp paths
    refine ⟨fun r asked => ?_, fun r asked => ?_, fun r asked => ?_, fun s demanded => ?_,
      Arena.acyclic_of_standsFor stands⟩
    · obtain ⟨p, ends, _⟩ := parameters r asked
      exact ⟨p, ends⟩
    · obtain ⟨b, ends, _⟩ := requestBodies r asked
      exact ⟨b, ends⟩
    · obtain ⟨b, ends, _⟩ := responses r asked
      exact ⟨b, ends⟩
    · apply knows_iff.mp
      cases demanded with
      | @parameter r p asked ends schema =>
        obtain ⟨q, other, knows⟩ := parameters r asked
        cases ends.unique parameterTable_flat other
        exact knows s schema
      | @requestBody r b _ _ asked ends content schema =>
        obtain ⟨c, other, knows⟩ := requestBodies r asked
        cases ends.unique requestBodyTable_flat other
        exact knows _ content s schema
      | @response r b _ _ asked ends content schema =>
        obtain ⟨c, other, knows⟩ := responses r asked
        cases ends.unique responseTable_flat other
        exact knows _ content s schema
      | component h => exact known _ s (distinct.mem_declaredSchemas.mpr (.inl h))
      | definition h unshadowed =>
        exact known _ s (distinct.mem_declaredSchemas.mpr (.inr ⟨h, unshadowed⟩))

theorem mapsTo_iff (stands : ∀ n ∈ doc.declaredArena.names, ∃ t, doc.declaredArena.StandsFor n t)
    (e : MappingEntry) : (∃ t, doc.declaredArena.Designates e t) ↔ doc.MapsTo e.target := by
  have named : ∀ n, TargetNames e.target n ↔
      Pointer.Names e.target n ∨ ('/' ∉ e.target.toList ∧ e.target = n) := by
    intro n
    rw [TargetNames, Pointer.schemaName?_eq_some]
  constructor
  · intro given
    obtain ⟨t, n, target, chain⟩ := given
    have declared : doc.declares n = true := declares_iff.mpr chain.mem_names
    exact ⟨n, declared, (named n).mp target⟩
  · intro given
    obtain ⟨n, declared, target⟩ := given
    obtain ⟨t, chain⟩ := stands n (declares_iff.mp declared)
    exact ⟨t, n, (named n).mpr target, chain⟩

theorem resolve_succeeds : Succeeds doc.resolve ↔ Succeeds doc.resolvePaths ∧
    (∀ n s, (n, s) ∈ doc.declaredSchemas → doc.Knows s) ∧
      (∀ n ∈ doc.declaredArena.names, ∃ t, doc.declaredArena.StandsFor n t) ∧
        ∀ e ∈ doc.declaredArena.mappingEntries, ∃ t, doc.declaredArena.Designates e t := by
  have stands : (∀ n ∈ doc.declaredArena.respelled.names,
      ∃ t, doc.declaredArena.respelled.StandsFor n t) ↔
        ∀ n ∈ doc.declaredArena.names, ∃ t, doc.declaredArena.StandsFor n t := by
    rw [Arena.respelled_names]
    simp only [Arena.respelled_standsFor]
  have injects : (∃ i, doc.declaredArena.respelled.injectDiscriminators = .ok i) ↔
      ∀ e ∈ doc.declaredArena.mappingEntries, ∃ t, doc.declaredArena.Designates e t := by
    rw [Arena.injectDiscriminators_total, Arena.respelled_mappingEntries]
    simp only [Arena.respelled_designates]
  rw [← stands, ← injects]
  constructor
  · intro given
    obtain ⟨resolved, run⟩ := given
    obtain ⟨paths, arena, i, paths_run, arena_run, chains, injected, _⟩ := resolve_eq_ok.mp run
    obtain ⟨rfl, known⟩ := resolveSchemas_iff_respelled.mp arena_run
    exact ⟨⟨paths, paths_run⟩, known, chains, i, injected⟩
  · intro given
    obtain ⟨⟨paths, paths_run⟩, known, chains, i, injected⟩ := given
    have schemas_run : doc.resolveSchemas = .ok doc.declaredArena.respelled :=
      resolveSchemas_iff_respelled.mpr ⟨rfl, known⟩
    exact ⟨_, resolve_eq_ok.mpr ⟨paths, _, i, paths_run, schemas_run, chains, injected, rfl⟩⟩

/-- A document is resolved exactly if all its references lead somewhere and its discriminators map
to declared schemas; otherwise there is an error. Documents that are read declare every name
once. -/
theorem resolve_iff (distinct : doc.Distinct) :
    ((∃ resolved, doc.resolve = .ok resolved) ↔
      doc.Linked ∧ ∀ e ∈ doc.declaredArena.mappingEntries, doc.MapsTo e.target) ∧
    ((∃ e, doc.resolve = .error e) ↔
      ¬ (doc.Linked ∧ ∀ e ∈ doc.declaredArena.mappingEntries, doc.MapsTo e.target)) ∧
    ∀ source : Document, source.Read → source.Distinct := by
  have succeeds : Succeeds doc.resolve ↔
      doc.Linked ∧ ∀ e ∈ doc.declaredArena.mappingEntries, doc.MapsTo e.target := by
    rw [resolve_succeeds, linked_iff distinct]
    constructor
    · intro given
      obtain ⟨paths, known, stands, targets⟩ := given
      refine ⟨⟨paths, known, stands⟩, fun e mem => ?_⟩
      rw [← mapsTo_iff stands]
      exact targets e mem
    · intro given
      obtain ⟨⟨paths, known, stands⟩, targets⟩ := given
      refine ⟨paths, known, stands, fun e mem => ?_⟩
      rw [mapsTo_iff stands]
      exact targets e mem
  exact ⟨succeeds, fails_iff.trans (not_congr succeeds), fun _ read => read.distinct⟩

/-- One schema has a slash in its name, and the discriminator of the other maps to the target. -/
def kennel (target : String) : Document where
  openapi := "3.0.3"
  info := { title := "Kennel", version := "1" }
  components := some { schemas :=
    [("Owner", .item { discriminator := some ⟨"kind", [("pet", target)]⟩ }), ("pets/Pet", .item {})] }

section

variable (target : String)

theorem kennel_distinct : (kennel target).Distinct := by
  constructor
  · show ["Owner", "pets/Pet"].Nodup
    decide
  · exact .nil

theorem kennel_declared : (kennel target).declaredSchemas =
    [("Owner", .item { discriminator := some ⟨"kind", [("pet", target)]⟩ }),
      ("pets/Pet", .item {})] := rfl

theorem kennel_entries : (kennel target).declaredArena.mappingEntries =
    [⟨"Owner", "kind", "pet", target⟩] := by
  have owner : Schema.children { discriminator := some ⟨"kind", [("pet", target)]⟩ } = [] := rfl
  have pet : Schema.children {} = [] := rfl
  unfold Arena.mappingEntries declaredArena
  rw [kennel_declared]
  simp only [List.flatMap_cons, List.flatMap_nil, SchemaRef.inlined_item, owner, pet]
  rfl

theorem kennel_linked : (kennel target).Linked := by
  rw [linked_iff (kennel_distinct target)]
  have empty : ∀ n s, (n, s) ∈ (kennel target).declaredSchemas →
      ∃ t : Schema, s = .item t ∧ t.children = [] := by
    intro n s listed
    rw [kennel_declared] at listed
    simp only [List.mem_cons, Prod.mk.injEq, List.not_mem_nil, or_false] at listed
    rcases listed with ⟨_, rfl⟩ | ⟨_, rfl⟩
    · exact ⟨_, rfl, rfl⟩
    · exact ⟨_, rfl, rfl⟩
  refine ⟨⟨[], rfl⟩, fun n s listed path mentioned => ?_, fun n mem => ?_⟩
  · obtain ⟨t, rfl, none⟩ := empty n s listed
    cases mentioned with
    | inside held _ =>
      obtain ⟨_, child⟩ := Schema.holds_iff_child.mp held
      rw [none] at child
      cases child
  · obtain ⟨s, found⟩ := Keyed.find?_of_mem_keys mem
    obtain ⟨t, rfl, _⟩ := empty n s (Keyed.mem_of_find? found)
    exact ⟨n, .item found⟩

end

/-- A reference to a name with a slash is a mapping target. -/
theorem resolve_iff_kennel :
    (∃ resolved, (kennel "#/components/schemas/pets~1Pet").resolve = .ok resolved) ∧
      ∃ e, (kennel "pets/Horse").resolve = .error e := by
  constructor
  · refine (resolve_iff (kennel_distinct _)).1.mpr ⟨kennel_linked _, fun e mem => ?_⟩
    rw [kennel_entries, List.mem_singleton] at mem
    subst mem
    exact ⟨"pets/Pet", by decide, .inl (Pointer.schemaName?_eq_some.mp (by decide))⟩
  · refine (resolve_iff (kennel_distinct _)).2.1.mpr fun given => ?_
    obtain ⟨n, _, target⟩ := given.2 ⟨"Owner", "kind", "pet", "pets/Horse"⟩ (by
      rw [kennel_entries]
      exact .head _)
    rcases target with named | ⟨flat, _⟩
    · have unnamed : Pointer.schemaName? "pets/Horse" = none := by decide
      cases unnamed.symm.trans (Pointer.schemaName?_eq_some.mpr named)
    · exact flat (by decide)

/-- The bare name is not: everything leads somewhere, and the target is the name of a declared
schema, but there is an error. -/
theorem resolve_slashed_name : (kennel "pets/Pet").Distinct ∧ (kennel "pets/Pet").Linked ∧
    (∀ e ∈ (kennel "pets/Pet").declaredArena.mappingEntries,
      ∃ n, (kennel "pets/Pet").declares n = true ∧ (Pointer.Names e.target n ∨ e.target = n)) ∧
    ∃ e, (kennel "pets/Pet").resolve = .error e := by
  refine ⟨kennel_distinct _, kennel_linked _, fun e mem => ?_, fails_iff.mpr fun succeeds => ?_⟩
  · rw [kennel_entries, List.mem_singleton] at mem
    subst mem
    exact ⟨"pets/Pet", by decide, .inr rfl⟩
  · have targets := (resolve_succeeds.mp succeeds).2.2.2
    obtain ⟨_, _, named | ⟨flat, _⟩, _⟩ := targets ⟨"Owner", "kind", "pet", "pets/Pet"⟩ (by
      rw [kennel_entries]
      exact .head _)
    · have unnamed : Pointer.schemaName? "pets/Pet" = none := by decide
      cases unnamed.symm.trans named
    · exact flat (by decide)

end TypedClients.Document
