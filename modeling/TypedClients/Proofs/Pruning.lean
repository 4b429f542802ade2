import TypedClients.Proofs.Extension
import TypedClients.Proofs.Pages

namespace TypedClients

/-- The text of an operation depends only on the part of an arena that its schemas refer to. -/
def Backend.Local (b : Backend) : Prop :=
  ∀ (small large : Arena), small.PartOf large → ∀ (unit : String) (target : Target) (e : Endpoint),
    (∀ r ∈ e.schemaRoots, small.Covers r) → ∀ d,
      b.client ⟨unit, target, large⟩ e d = b.client ⟨unit, target, small⟩ e d

def ModelEmitter.Local (em : ModelEmitter) : Prop :=
  ∀ (small large : Arena), small.PartOf large → ∀ (target : Target) (fileStem name : String) s,
    small.find? name = some s →
      em.emit ⟨large, target, fileStem⟩ name s = em.emit ⟨small, target, fileStem⟩ name s

theorem TypeScript.emitter_local : TypeScript.emitter.Local := fun _ _ _ _ _ _ _ _ => rfl

theorem Client.fetch_local : Client.fetch.Local := fun _ _ _ _ _ _ _ _ => rfl

theorem Client.axios_local (style : Client.AxiosStyle) : (Client.axios style).Local :=
  fun _ _ _ _ _ _ _ _ => rfl

namespace Zod

open Outcome

variable {small large : Arena}

theorem validate_part (part : small.PartOf large) {r : SchemaRef} (covers : small.Covers r)
    (options : Options) (refs : RefStyle) (name : String) (required : Bool) :
    Scope.validate ⟨large, options, refs, []⟩ r name required =
      Scope.validate ⟨small, options, refs, []⟩ r name required := by
  refine Scope.validate_eq part (fun b none => ?_) covers name required
  cases none

theorem emitter_local : emitter.Local := by
  intro small large part target fileStem name s found
  have covers := (part.complete name s found).covers
  show (modelEntry _ name s).mapError _ = (modelEntry _ name s).mapError _
  unfold modelEntry modelScope
  dsimp only
  rw [validate_part part covers]
  rfl

theorem Task.validator_eq (part : small.PartOf large) {t : Task}
    (covers : ∀ r, t.subject.Covers r → small.Covers r) (config : ZodConfig) (refs : RefStyle) :
    t.validator large config refs = t.validator small config refs := by
  unfold Task.validator
  dsimp only
  cases subject : t.subject with
  | schema s =>
    rw [subject] at covers
    exact validate_part part (covers s rfl) _ _ _ _
  | fields params =>
    rw [subject] at covers
    dsimp only
    unfold Scope.validateFields
    congr 1
    apply mapM_congr
    intro field listed
    obtain ⟨p, member, rfl⟩ := List.mem_map.mp listed
    dsimp only
    cases schema : p.schema with
    | none => rfl
    | some r =>
      dsimp only
      rw [validate_part part (covers r ⟨p, member, schema⟩)]

theorem clientText_eq (part : small.PartOf large) {e : Endpoint}
    (covers : ∀ r ∈ e.schemaRoots, small.Covers r) (unit : String) (target : Target) :
    clientText ⟨unit, target, large⟩ e = clientText ⟨unit, target, small⟩ e := by
  unfold clientText
  dsimp only
  congr 1
  apply mapM_congr
  intro t task
  rw [Task.validator_eq part fun r given => covers r (covers_schemaRoots task given)]

theorem backend_local : backend.Local := by
  intro small large part unit target e covers d
  show ((clientText _ e).mapError _, d) = ((clientText _ e).mapError _, d)
  rw [clientText_eq part covers]

end Zod

namespace CommandLine

theorem registry_backend_local {id : String} {b : Backend} (h : registry.backend id = .ok b) :
    b.Local := by
  rcases registry_backend h with rfl | rfl | rfl | rfl
  · exact Client.fetch_local
  · exact Client.axios_local _
  · exact Client.axios_local _
  · exact Zod.backend_local

theorem registry_emitter_local {id : String} {em : ModelEmitter}
    (h : registry.emitter id = .ok em) : em.Local := by
  rcases registry_emitter h with rfl | rfl
  · exact TypeScript.emitter_local
  · exact Zod.emitter_local

end CommandLine

section

variable {small large : Arena}

theorem emitModels_eq {em : ModelEmitter} (isLocal : em.Local) (part : small.PartOf large)
    (target : Target) (fileStem : String) {names : List String}
    (stored : ∀ n ∈ names, n ∈ small.names) :
    emitModels em ⟨large, target, fileStem⟩ names =
      emitModels em ⟨small, target, fileStem⟩ names := by
  induction names with
  | nil => rfl
  | cons n rest ih =>
    obtain ⟨s, found⟩ := Keyed.find?_of_mem_keys (stored n List.mem_cons_self)
    have found : small.find? n = some s := found
    unfold emitModels
    rw [ih fun m mem => stored m (List.mem_cons_of_mem _ mem)]
    have same := isLocal small large part target fileStem n s found
    simp only [found, part.find n s found, same]

theorem clientTexts_eq {b : Backend} (isLocal : b.Local) (part : small.PartOf large)
    (unit : String) (target : Target) {endpoints : List Endpoint}
    (covers : ∀ e ∈ endpoints, ∀ r ∈ e.schemaRoots, small.Covers r)
    (d : Deferred) :
    clientTexts b ⟨unit, target, large⟩ endpoints d =
      clientTexts b ⟨unit, target, small⟩ endpoints d := by
  induction endpoints generalizing d with
  | nil => rfl
  | cons e rest ih =>
    have first := isLocal small large part unit target e (covers e List.mem_cons_self) d
    have later := ih fun e' mem => covers e' (List.mem_cons_of_mem _ mem)
    unfold clientTexts
    simp only [first, later]

end

namespace RunState

variable {r : RunState} {other : Resolved} {b : Backend} {endpoints : List Endpoint}

theorem banner_eq (info : other.document.info = r.info) :
    banner { r with resolved := other } = r.banner := by
  show TypedClients.banner other.document.info.title other.document.info.version = _
  rw [info]
  rfl

theorem modelPages_eq (info : other.document.info = r.info) :
    modelPages { r with resolved := other } = r.modelPages := by
  unfold modelPages
  apply List.map_congr_left
  intro f _
  unfold modelPage
  rw [banner_eq info]
  rfl

theorem renderUnit_eq (isLocal : b.Local) (part : r.resolved.arena.PartOf other.arena)
    (info : other.document.info = r.info) (u : OutputUnit)
    (covers : ∀ e ∈ endpoints, ∀ s ∈ e.schemaRoots, r.resolved.arena.Covers s) (d : Deferred) :
    renderUnit { r with resolved := other } b u endpoints d = r.renderUnit b u endpoints d := by
  have page : ∀ header texts footer,
      unitPage { r with resolved := other } b u endpoints header texts footer =
        r.unitPage b u endpoints header texts footer := by
    intro header texts footer
    unfold unitPage
    rw [banner_eq info]
    rfl
  have texts := clientTexts_eq isLocal part u.name r.target covers d
  have info : RunState.info { r with resolved := other } = r.info := info
  unfold renderUnit
  dsimp only
  rw [info, texts]
  simp only [page]

theorem renderUnits_eq (isLocal : b.Local) (part : r.resolved.arena.PartOf other.arena)
    (info : other.document.info = r.info)
    (covers : ∀ e ∈ endpoints, ∀ s ∈ e.schemaRoots, r.resolved.arena.Covers s)
    (units : List OutputUnit) (d : Deferred) :
    renderUnits { r with resolved := other } b endpoints units d =
      r.renderUnits b endpoints units d := by
  induction units generalizing d with
  | nil => rfl
  | cons u rest ih =>
    have own : ∀ e ∈ u.endpoints endpoints, ∀ s ∈ e.schemaRoots, r.resolved.arena.Covers s := by
      intro e mem
      obtain ⟨i, _, numbered⟩ := List.mem_filterMap.mp mem
      exact covers e (List.mem_of_getElem? numbered)
    unfold renderUnits
    dsimp only
    rw [renderUnit_eq isLocal part info u own d, ih]

end RunState

/-- What is generated depends only on the part of an arena that the operations refer to. -/
theorem generate_part {b : Backend} {em : ModelEmitter} (backend : b.Local) (emitter : em.Local)
    {resolved other : Resolved} (part : resolved.arena.PartOf other.arena)
    (info : other.document.info = resolved.document.info) {endpoints : List Endpoint}
    (roots : ∀ e ∈ endpoints, ∀ r ∈ e.schemaRoots, resolved.arena.Suffices other.arena r)
    (target : Target) (units : List OutputUnit) (fileStem : String) :
    generate b em other target endpoints units fileStem =
      generate b em resolved target endpoints units fileStem := by
  have covers : ∀ e ∈ endpoints, ∀ r ∈ e.schemaRoots, resolved.arena.Covers r :=
    fun e mem r root => (roots e mem r root).covers
  have reachable : other.arena.reachable (endpoints.flatMap Endpoint.schemaRoots) =
      resolved.arena.reachable (endpoints.flatMap Endpoint.schemaRoots) := by
    apply part.reachable_eq
    intro r mem
    obtain ⟨e, endpoint, root⟩ := List.mem_flatMap.mp mem
    exact roots e endpoint r root
  have models := emitModels_eq emitter part target fileStem
    (resolved.arena.reachable_closed (endpoints.flatMap Endpoint.schemaRoots)).stored
  unfold generate
  dsimp only
  rw [reachable, models]
  generalize emitModels em ⟨resolved.arena, target, fileStem⟩ _ = emitted
  let state : RunState := ⟨resolved, target, em, ModelFile.assemble emitted.1, units⟩
  have pages := RunState.modelPages_eq (r := state) info
  have results := RunState.renderUnits_eq (r := state) backend part info covers units {}
  dsimp only [state] at pages results
  rw [pages, results]
  rfl

namespace CommandLine

/-- A schema that nothing in a document mentions changes nothing of what is generated. -/
theorem registry_run_pruned {doc : Document} {target : Target} {report : Report}
    (h : registry.run doc target = .ok report) {before after : List (String × SchemaRef)}
    (schemas : doc.componentSchemas = before ++ after) {name : String} {s : SchemaRef}
    (fresh : doc.declares name = false) (silent : ¬ doc.Mentions name) (unmapped : s.Unmapped)
    (resolves : ∃ resolved,
      (doc.withSchemas (before ++ (name, s) :: after)).resolve = .ok resolved) :
    registry.run (doc.withSchemas (before ++ (name, s) :: after)) target = .ok report := by
  obtain ⟨extended, again⟩ := resolves
  obtain ⟨r, starts, rfl, rfl⟩ := Run.run_eq_ok.mp h
  obtain ⟨paths, info, part, enough⟩ :=
    Document.resolve_withSchemas starts.resolved schemas fresh silent unmapped again
  have endpoints : buildEndpoints extended r.target = .ok r.endpoints := by
    rw [buildEndpoints_eq part paths (fun r uses => (enough r uses).covers), starts.endpoints]
  -- The run on the extended document differs from `r` in its arena alone.
  let wide : Run := { r with resolved := extended }
  have title : wide.title = r.title := congrArg Info.title info
  have fileStem : wide.fileStem = r.fileStem := congrArg r.target.fileStem title
  have units : wide.units = r.units := by
    unfold Run.units
    rw [title, fileStem]
  have same : wide.report = r.report := by
    have roots : ∀ e ∈ r.endpoints, ∀ s ∈ e.schemaRoots,
        r.resolved.arena.Suffices extended.arena s := by
      intro e mem s root
      obtain ⟨_, _, _, uses⟩ := buildEndpoints_builtFrom starts.endpoints mem
      exact enough s (uses s root)
    unfold Run.report
    rw [units, fileStem]
    exact generate_part (registry_backend_local starts.backend)
      (registry_emitter_local starts.emitter) part info roots r.target r.units r.fileStem
  refine Run.run_eq_ok.mpr ⟨wide, ?_, rfl, same.symm⟩
  refine ⟨starts.backend, starts.emitter, again, endpoints, ?_⟩
  rw [units]
  exact starts.distinct

end CommandLine

theorem zooModel_holds {c : SchemaRef} :
    zooModel.Holds c ↔ c = .ref "#/components/schemas/Pet" := by
  have children : zooModel.children = [(.property "pet", .ref "#/components/schemas/Pet")] := rfl
  simp [Schema.holds_iff_child, children]

theorem zooModel_flat : zooModel.Flat := fun _ held => ⟨_, zooModel_holds.mp held⟩

theorem zooModel_refersTo {n : String} : SchemaRef.RefersTo (.item zooModel) n ↔ n = "Pet" := by
  rw [SchemaRef.refersTo_item]
  constructor
  · intro given
    rcases given with ⟨_, _, _, none, _⟩ | ⟨c, held, h⟩
    · cases none
    · cases zooModel_holds.mp held
      have named := SchemaRef.refersTo_ref.mp h
      rw [Document.zoo_pet] at named
      exact (Option.some.inj named).symm
  · intro same
    subst same
    exact .inr ⟨_, zooModel_holds.mpr rfl, SchemaRef.refersTo_ref.mpr Document.zoo_pet⟩

theorem zooPet_refersTo {n : String} : ¬ SchemaRef.RefersTo (.item zooPet) n := by
  have children : zooPet.children =
      [(.property "name", .item { type := some (.single .string) })] := rfl
  intro h
  rcases SchemaRef.refersTo_item.mp h with ⟨_, _, _, none, _⟩ | ⟨c, held, h⟩
  · cases none
  · rw [Schema.holds_iff_child, children] at held
    obtain ⟨_, child⟩ := held
    cases List.mem_singleton.mp child
    rcases SchemaRef.refersTo_item.mp h with ⟨_, _, _, none, _⟩ | ⟨d, held, _⟩
    · cases none
    · obtain ⟨_, none⟩ := Schema.holds_iff_child.mp held
      cases none

theorem zoo_mentions {n : String} (h : zoo.Mentions n) : n = "Model" ∨ n = "Pet" := by
  obtain ⟨s, given, refers⟩ := h
  cases given with
  | used uses =>
    cases uses with
    | path mem uses =>
      cases List.mem_singleton.mp mem
      cases uses with
      | parameter none => cases none
      | operation mem uses =>
        cases List.mem_singleton.mp mem
        cases uses with
        | parameter none => cases none
        | requestBody none => cases none
        | response mem content schema =>
          cases List.mem_singleton.mp mem
          cases List.mem_singleton.mp content
          cases schema
          have named := SchemaRef.refersTo_ref.mp refers
          rw [Document.zoo_model] at named
          exact .inl (Option.some.inj named).symm
  | parameter none => cases none
  | requestBody none => cases none
  | response none => cases none
  | declared mem =>
    have declared : zoo.declaredSchemas = [("Model", .item zooModel), ("Pet", .item zooPet)] := rfl
    rw [declared] at mem
    simp only [List.mem_cons, Prod.mk.injEq, List.not_mem_nil, or_false] at mem
    rcases mem with ⟨_, rfl⟩ | ⟨_, rfl⟩
    · exact .inr (zooModel_refersTo.mp refers)
    · exact absurd refers zooPet_refersTo

namespace CommandLine

theorem registry_run_pruned_zoo : ∃ report, registry.run zoo zooTarget = .ok report ∧
    report.errors = [] ∧ registry.run (zoo.withSchemas [("Model", .item zooModel),
      ("Spare", .item zooModel), ("Pet", .item zooPet)]) zooTarget = .ok report := by
  obtain ⟨e, built, _, tags, _⟩ := zoo_endpoints
  have run : registry.run zoo zooTarget = .ok (zooRun e).report :=
    Run.run_eq_ok.mpr ⟨zooRun e, zooRun_starts built tags, rfl, rfl⟩
  have schemas : zoo.componentSchemas =
      [("Model", .item zooModel)] ++ [("Pet", .item zooPet)] := rfl
  have fresh : zoo.declares "Spare" = false := by decide
  have silent : ¬ zoo.Mentions "Spare" := by
    intro mentioned
    rcases zoo_mentions mentioned with same | same
    · exact absurd same (by decide)
    · exact absurd same (by decide)
  have unmapped : SchemaRef.Unmapped (.item zooModel) := by
    intro s d nested given
    cases zooModel_flat.nests_iff.mp nested
    cases given
  have known : zoo.Knows (.item zooModel) := by
    intro path mentioned
    cases zooModel_holds.mp (zooModel_flat.mentions_iff.mp mentioned)
    exact ⟨"Pet", Document.zoo_pet, by decide⟩
  refine ⟨_, run, (zooRun_total e).report_errors, ?_⟩
  exact registry_run_pruned run schemas fresh silent unmapped
    (Document.resolves_withSchemas Document.zoo_resolve schemas fresh unmapped known)

end CommandLine

end TypedClients
