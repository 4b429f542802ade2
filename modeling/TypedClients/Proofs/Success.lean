import TypedClients.Proofs.Expansion
import TypedClients.Proofs.Generators
import TypedClients.Proofs.Operations

namespace TypedClients

structure Backend.Reliable (b : Backend) : Prop where
  header : ∀ c, ∃ text, b.header c = .ok text
  client : ∀ (c : ClientContext) (e : Endpoint), c.arena.Closed →
    (∀ r ∈ e.schemaRoots, c.arena.Covers r) → ∀ d, ∃ t after, b.client c e d = (.ok t, after)
  footer : ∀ c d, ∃ text, b.footer c d = .ok text

def ModelEmitter.Reliable (em : ModelEmitter) : Prop :=
  ∀ (c : ModelContext) (name : String) s, c.arena.Closed → c.arena.find? name = some s →
    ∃ entry, em.emit c name s = .ok entry

theorem Client.fetch_reliable : Client.fetch.Reliable where
  header _ := ⟨_, rfl⟩
  client _ _ _ _ _ := ⟨_, _, rfl⟩
  footer _ _ := ⟨_, rfl⟩

theorem Client.axios_reliable (style : Client.AxiosStyle) : (Client.axios style).Reliable where
  header _ := ⟨_, rfl⟩
  client _ _ _ _ _ := ⟨_, _, rfl⟩
  footer _ _ := ⟨_, rfl⟩

theorem TypeScript.emitter_reliable : TypeScript.emitter.Reliable := fun _ _ _ _ _ => ⟨_, rfl⟩

namespace Zod

open Outcome

theorem Scope.namedModel_total (g : Scope) (current : Option String) (sharedFile : Bool)
    {path target : String} (named : Pointer.schemaName? path = some target) :
    ∃ v, g.namedModel current sharedFile path = .ok v := by
  unfold namedModel
  rw [named]
  dsimp only
  split
  · split <;> exact ⟨_, rfl⟩
  · exact ⟨_, rfl⟩

theorem Scope.validate_total {g : Scope} (closed : g.arena.Closed) (start : g.busy = [])
    {r : SchemaRef} (covers : g.arena.Covers r) (name : String) (required : Bool) :
    ∃ v, g.validate r name required = .ok v := by
  cases style : g.refs with
  | inline =>
    have unreferenced := Arena.expand_mentions closed g.busy covers
    obtain ⟨v, run, _⟩ := validate_unreferenced g.options unreferenced name required
    refine ⟨v, ?_⟩
    rw [validate_expand style closed (fun b busy => ?_) covers, style, run]
    rw [start] at busy
    cases busy
  | named current sharedFile =>
    have made : Meets False (Validator.AllUses fun _ => True) (g.validate r name required) := by
      refine validate_named (Validator.allUses_hereditary _) style fun path mentioned => ?_
      obtain ⟨n, t, named, _⟩ := covers path mentioned
      obtain ⟨v, run⟩ := g.namedModel_total current sharedFile named
      rw [run]
      exact .of_models fun _ _ _ => trivial
    obtain ⟨v, run, _⟩ := made.total
    exact ⟨v, run⟩

theorem Task.validator_total {t : Task} {arena : Arena} (closed : arena.Closed)
    (covers : ∀ r, t.subject.Covers r → arena.Covers r) (config : ZodConfig) (refs : RefStyle) :
    ∃ v, t.validator arena config refs = .ok v := by
  unfold Task.validator
  dsimp only
  cases subject : t.subject with
  | schema s =>
    rw [subject] at covers
    exact Scope.validate_total closed rfl (covers s rfl) _ _
  | fields params =>
    rw [subject] at covers
    unfold Scope.validateFields
    refine succeeds_map.mpr (succeeds_mapM.mpr fun field listed => ?_)
    obtain ⟨p, member, rfl⟩ := List.mem_map.mp listed
    dsimp only
    cases schema : p.schema with
    | none => exact ⟨_, rfl⟩
    | some r =>
      apply succeeds_bind_pure.mpr
      exact Scope.validate_total closed rfl (covers r ⟨p, member, schema⟩) _ _

theorem clientText_total (c : ClientContext) {e : Endpoint} (closed : c.arena.Closed)
    (covers : ∀ r ∈ e.schemaRoots, c.arena.Covers r) : ∃ text, clientText c e = .ok text := by
  unfold clientText
  refine succeeds_bind_pure.mpr (succeeds_mapM.mpr fun t task => succeeds_bind_pure.mpr ?_)
  exact t.validator_total closed (fun r given => covers r (covers_schemaRoots task given)) _ _

theorem backend_reliable : backend.Reliable where
  header _ := ⟨_, rfl⟩
  client c e closed covers d := by
    obtain ⟨text, run⟩ := clientText_total c closed covers
    refine ⟨text, d, ?_⟩
    show ((clientText c e).mapError _, d) = _
    rw [run]
    rfl
  footer _ _ := ⟨_, rfl⟩

theorem emitter_reliable : emitter.Reliable := by
  intro c name s closed found
  have covers : c.arena.Covers s := closed name s found
  obtain ⟨v, run⟩ := Scope.validate_total (g := modelScope c name) closed rfl covers
    (modelName name) true
  have made : ∃ entry, modelEntry c name s = .ok entry := by
    unfold modelEntry
    rw [run]
    exact ⟨_, rfl⟩
  obtain ⟨entry, made⟩ := made
  exact ⟨entry, mapError_eq_ok.mpr made⟩

end Zod

/-- A registry that offers built-in generators only, not necessarily all of them. -/
structure Registry.BuiltIn (registry : Registry) : Prop where
  backends : ∀ b ∈ registry.backends, b ∈ CommandLine.registry.backends
  emitters : ∀ em ∈ registry.emitters, em ∈ CommandLine.registry.emitters

namespace CommandLine

theorem backend_reliable {b : Backend} (h : b ∈ registry.backends) : b.Reliable := by
  have all : registry.backends =
      [Client.fetch, Client.axios .factory, Client.axios .functions, Zod.backend] := rfl
  rw [all] at h
  simp only [List.mem_cons, List.not_mem_nil, or_false] at h
  rcases h with rfl | rfl | rfl | rfl
  · exact Client.fetch_reliable
  · exact Client.axios_reliable _
  · exact Client.axios_reliable _
  · exact Zod.backend_reliable

theorem emitter_reliable {em : ModelEmitter} (h : em ∈ registry.emitters) : em.Reliable := by
  have all : registry.emitters = [TypeScript.emitter, Zod.emitter] := rfl
  rw [all] at h
  simp only [List.mem_cons, List.not_mem_nil, or_false] at h
  rcases h with rfl | rfl
  · exact TypeScript.emitter_reliable
  · exact Zod.emitter_reliable

end CommandLine

variable {registry : Registry}

theorem Registry.backend_cases (registry : Registry) (id : String) :
    (∃ b ∈ registry.backends, registry.backend id = .ok b) ∨
      (registry.backend id = .error (.unknownBackend id) ∧
        ∀ b ∈ registry.backends, b.id ≠ id) := by
  unfold Registry.backend
  cases found : registry.backends.find? fun b => b.id == id with
  | some b => exact .inl ⟨b, List.mem_of_find?_eq_some found, rfl⟩
  | none => exact .inr ⟨rfl, fun b mem => by simpa using List.find?_eq_none.mp found b mem⟩

theorem Registry.emitter_cases (registry : Registry) (id : String) :
    (∃ em ∈ registry.emitters, registry.emitter id = .ok em) ∨
      (registry.emitter id = .error (.unknownBackend id) ∧
        ∀ em ∈ registry.emitters, em.id ≠ id) := by
  unfold Registry.emitter
  cases found : registry.emitters.find? fun em => em.id == id with
  | some em => exact .inl ⟨em, List.mem_of_find?_eq_some found, rfl⟩
  | none => exact .inr ⟨rfl, fun em mem => by simpa using List.find?_eq_none.mp found em mem⟩

/-- A run on a document that is resolved, with generators that are reliable, loses nothing. -/
theorem Run.Starts.reliable {r : Run} {doc : Document} (starts : r.Starts registry doc)
    (backend : r.backend.Reliable) (emitter : r.emitter.Reliable) : r.Reliable where
  emit n s found := emitter r.modelContext n s (Document.resolve_closed starts.resolved) found
  header := backend.header
  client unit e mem d := by
    refine backend.client _ e (Document.resolve_closed starts.resolved) (fun s root => ?_) d
    obtain ⟨_, _, _, uses⟩ := buildEndpoints_builtFrom starts.endpoints mem
    exact Document.resolve_uses_covers starts.resolved (uses s root)
  footer := backend.footer

/-- Once a document has been resolved, its operations can be built, and a run ends in a collision of
names or with an unknown generator, or it loses nothing. -/
theorem Registry.run_resolved (builtIn : registry.BuiltIn) {doc : Document} {resolved : Resolved}
    (h : doc.resolve = .ok resolved) (target : Target) :
    ∃ endpoints, buildEndpoints resolved target = .ok endpoints ∧
      ((∃ u ∈ planUnits endpoints target.mode resolved.document.info.title
            (target.fileStem resolved.document.info.title),
          ∃ c, u.collision? endpoints = some c ∧
            registry.run doc target = .error (.collision c)) ∨
        ((∀ b ∈ registry.backends, b.id ≠ target.client) ∧
          registry.run doc target = .error (.generation (.unknownBackend target.client))) ∨
        ((∀ em ∈ registry.emitters, em.id ≠ target.models.id) ∧
          registry.run doc target = .error (.generation (.unknownBackend target.models.id))) ∨
        ∃ report, registry.run doc target = .ok report ∧ report.errors = []) := by
  obtain ⟨endpoints, built⟩ := buildEndpoints_total h target
  refine ⟨endpoints, built, ?_⟩
  rcases registry.backend_cases target.client with ⟨b, offered, backend⟩ | ⟨unknown, none⟩
  · rcases registry.emitter_cases target.models.id with ⟨em, given, emitter⟩ | ⟨unknown, none⟩
    · let r : Run := ⟨b, em, resolved, target, endpoints⟩
      cases clash : r.units.findSome? fun u => u.collision? endpoints with
      | some c =>
        obtain ⟨u, unit, collides⟩ := List.exists_of_findSome?_eq_some clash
        exact .inl ⟨u, unit, c, collides,
          Run.run_collision (r := r) backend emitter h built clash⟩
      | none =>
        have starts : r.Starts registry doc := ⟨backend, emitter, h, built, clash⟩
        have reliable := starts.reliable (CommandLine.backend_reliable (builtIn.backends b offered))
          (CommandLine.emitter_reliable (builtIn.emitters em given))
        exact .inr (.inr (.inr ⟨r.report, Run.run_eq_ok.mpr ⟨r, starts, rfl, rfl⟩,
          reliable.report_errors⟩))
    · refine .inr (.inr (.inl ⟨none, ?_⟩))
      unfold Registry.run
      rw [backend, unknown]
      rfl
  · refine .inr (.inl ⟨none, ?_⟩)
    unfold Registry.run
    rw [unknown]
    rfl

theorem CommandLine.registry_builtIn : CommandLine.registry.BuiltIn :=
  ⟨fun _ listed => listed, fun _ listed => listed⟩

theorem Run.Starts.builtIn_reliable {r : Run} {doc : Document}
    (starts : r.Starts CommandLine.registry doc) : r.Reliable := by
  have backend : r.backend.Reliable := by
    rcases CommandLine.registry.backend_cases r.target.client with ⟨b, offered, found⟩ | ⟨none, _⟩
    · cases starts.backend.symm.trans found
      exact CommandLine.backend_reliable offered
    · cases starts.backend.symm.trans none
  have emitter : r.emitter.Reliable := by
    rcases CommandLine.registry.emitter_cases r.target.models.id with ⟨em, given, found⟩ | ⟨none, _⟩
    · cases starts.emitter.symm.trans found
      exact CommandLine.emitter_reliable given
    · cases starts.emitter.symm.trans none
  exact starts.reliable backend emitter

theorem Run.Starts.clean {r : Run} {doc : Document} (starts : r.Starts CommandLine.registry doc) :
    r.report.errors = [] := starts.builtIn_reliable.report_errors

theorem CommandLine.run_pages {doc : Document} {target : Target} {report : Report}
    (h : CommandLine.registry.run doc target = .ok report) :
    ∃ (r : Run) (renderings : List Rendering), r.Starts CommandLine.registry doc ∧
      r.target = target ∧ List.Forall₂ r.Renders r.units renderings ∧
      report.files = (r.pages renderings).map (Page.write r) := by
  obtain ⟨r, starts, rfl, rfl⟩ := Run.run_eq_ok.mp h
  obtain ⟨_, renderings, renders, files⟩ := Run.report_clean starts.clean
  exact ⟨r, renderings, starts, rfl, renders, Run.report_files files⟩

theorem Registry.run_resolved_zoo : ∃ report,
    CommandLine.registry.run zoo zooTarget = .ok report ∧ report.errors = [] := by
  obtain ⟨e, again, _, tags, _⟩ := zoo_endpoints
  obtain ⟨endpoints, built, outcome⟩ :=
    Registry.run_resolved CommandLine.registry_builtIn Document.zoo_resolve zooTarget
  cases again.symm.trans built
  rcases outcome with ⟨u, unit, c, collides, _⟩ | ⟨unknown, _⟩ | ⟨unknown, _⟩ | clean
  · have distinct := (zooRun_starts again tags).distinct
    rw [List.findSome?_eq_none_iff] at distinct
    cases (distinct u unit).symm.trans collides
  · exact absurd rfl (unknown Client.fetch (.head _))
  · exact absurd rfl (unknown TypeScript.emitter (.head _))
  · exact clean

end TypedClients
