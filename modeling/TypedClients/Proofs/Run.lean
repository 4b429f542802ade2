import TypedClients.CommandLine.Execute
import TypedClients.Proofs.Endpoints
import TypedClients.Proofs.Reachable
import TypedClients.Proofs.References
import TypedClients.Proofs.Validators

namespace TypedClients

open Outcome

/-- What a run works on when nothing has stopped it. -/
structure Run where
  backend : Backend
  emitter : ModelEmitter
  resolved : Resolved
  target : Target
  endpoints : List Endpoint

/-- What a backend has made of a unit. -/
structure Rendering where
  unit : OutputUnit
  header : String
  texts : List ClientText
  footer : String

namespace Run

def title (r : Run) : String := r.resolved.document.info.title

def fileStem (r : Run) : String := r.target.fileStem r.title

def units (r : Run) : List OutputUnit := planUnits r.endpoints r.target.mode r.title r.fileStem

def reachable (r : Run) : List String :=
  r.resolved.arena.reachable (r.endpoints.flatMap Endpoint.schemaRoots)

def modelContext (r : Run) : ModelContext := ⟨r.resolved.arena, r.target, r.fileStem⟩

def entries (r : Run) : List ModelEntry := (emitModels r.emitter r.modelContext r.reachable).1

def state (r : Run) : RunState :=
  ⟨r.resolved, r.target, r.emitter, ModelFile.assemble r.entries, r.units⟩

def report (r : Run) : Report :=
  generate r.backend r.emitter r.resolved r.target r.endpoints r.units r.fileStem

structure Starts (r : Run) (registry : Registry) (doc : Document) : Prop where
  backend : registry.backend r.target.client = .ok r.backend
  emitter : registry.emitter r.target.models.id = .ok r.emitter
  resolved : doc.resolve = .ok r.resolved
  endpoints : buildEndpoints r.resolved r.target = .ok r.endpoints
  distinct : r.units.findSome? (fun u => u.collision? r.endpoints) = none

theorem run_eq_ok {registry : Registry} {doc : Document} {target : Target} {report : Report} :
    registry.run doc target = .ok report ↔
      ∃ r : Run, r.Starts registry doc ∧ r.target = target ∧ report = r.report := by
  unfold Registry.run
  simp only [bind_eq_ok, mapError_eq_ok]
  constructor
  · intro given
    obtain ⟨b, backend, em, emitter, resolved, resolve, endpoints, build, finish⟩ := given
    refine ⟨⟨b, em, resolved, target, endpoints⟩, ?_⟩
    split at finish
    · cases finish
    · rename_i distinct
      rw [pure_eq_ok] at finish
      exact ⟨⟨backend, emitter, resolve, build, distinct⟩, rfl, finish⟩
  · intro given
    obtain ⟨r, starts, rfl, rfl⟩ := given
    refine ⟨r.backend, starts.backend, r.emitter, starts.emitter, r.resolved, starts.resolved,
      r.endpoints, starts.endpoints, ?_⟩
    have distinct := starts.distinct
    unfold units title fileStem title at distinct
    rw [distinct]
    rfl

theorem run_collision {r : Run} {registry : Registry} {doc : Document} {c : Collision}
    (backend : registry.backend r.target.client = .ok r.backend)
    (emitter : registry.emitter r.target.models.id = .ok r.emitter)
    (resolved : doc.resolve = .ok r.resolved)
    (endpoints : buildEndpoints r.resolved r.target = .ok r.endpoints)
    (clash : r.units.findSome? (fun u => u.collision? r.endpoints) = some c) :
    registry.run doc r.target = .error (.collision c) := by
  unfold Registry.run
  rw [backend, emitter, resolved]
  show ((buildEndpoints r.resolved r.target).mapError RunError.build >>= _) = _
  rw [endpoints]
  unfold units fileStem title at clash
  simp only [Except.mapError, bind, Except.bind, clash]
  rfl

theorem Starts.unique {r s : Run} {registry : Registry} {doc : Document}
    (first : r.Starts registry doc) (second : s.Starts registry doc) (same : r.target = s.target) :
    r = s := by
  obtain ⟨b, em, resolved, target, endpoints⟩ := r
  obtain ⟨b', em', resolved', target', endpoints'⟩ := s
  cases same
  have backend : b = b' := Except.ok.inj (first.backend.symm.trans second.backend)
  have emitter : em = em' := Except.ok.inj (first.emitter.symm.trans second.emitter)
  have document : resolved = resolved' := Except.ok.inj (first.resolved.symm.trans second.resolved)
  subst backend emitter document
  have built : endpoints = endpoints' := Except.ok.inj (first.endpoints.symm.trans second.endpoints)
  rw [built]

def Emits (r : Run) (name : String) (e : ModelEntry) : Prop :=
  ∃ s, r.resolved.arena.find? name = some s ∧ r.emitter.emit r.modelContext name s = .ok e

def unitContext (r : Run) (u : OutputUnit) : UnitContext :=
  ⟨u, r.backend.title u.name, u.endpoints r.endpoints, r.target, r.state.info⟩

def clientContext (r : Run) (u : OutputUnit) : ClientContext :=
  ⟨u.name, r.target, r.resolved.arena⟩

/-- The rendering of a unit, whatever was put off before. -/
structure Renders (r : Run) (u : OutputUnit) (c : Rendering) : Prop where
  unit : c.unit = u
  header : r.backend.header (r.unitContext u) = .ok c.header
  texts : List.Forall₂ (fun e t => ∃ before after,
    r.backend.client (r.clientContext u) e before = (.ok t, after)) (u.endpoints r.endpoints) c.texts
  footer : ∃ d, r.backend.footer (r.unitContext u) d = .ok c.footer

def clientPage (r : Run) (c : Rendering) : GeneratedFile :=
  r.state.unitPage r.backend c.unit (c.unit.endpoints r.endpoints) c.header c.texts c.footer

end Run

theorem emitModels_forall₂ {em : ModelEmitter} {c : ModelContext} {names : List String}
    (stored : ∀ n ∈ names, ∃ s, c.arena.find? n = some s) (clean : (emitModels em c names).2 = []) :
    List.Forall₂ (fun n e => ∃ s, c.arena.find? n = some s ∧ em.emit c n s = .ok e) names
      (emitModels em c names).1 := by
  induction names with
  | nil => exact .nil
  | cons n rest ih =>
    obtain ⟨s, found⟩ := stored n List.mem_cons_self
    have later := ih fun m mem => stored m (List.mem_cons_of_mem _ mem)
    unfold emitModels at clean ⊢
    simp only [found] at clean ⊢
    cases run : em.emit c n s with
    | error e =>
      rw [run] at clean
      cases clean
    | ok entry =>
      rw [run] at clean
      exact .cons ⟨s, found, run⟩ (later clean)

theorem mem_emitModels {em : ModelEmitter} {c : ModelContext} {names : List String}
    {e : ModelEntry} : e ∈ (emitModels em c names).1 ↔
      ∃ n ∈ names, ∃ s, c.arena.find? n = some s ∧ em.emit c n s = .ok e := by
  induction names with
  | nil => simp [emitModels]
  | cons n rest ih =>
    rw [emitModels]
    cases found : c.arena.find? n with
    | none => simp [ih, found]
    | some s =>
      cases run : em.emit c n s with
      | error err => simp [ih, found, run]
      | ok entry => simp [ih, found, run, eq_comm]

theorem clientTexts_forall₂ {b : Backend} {c : ClientContext} {endpoints : List Endpoint}
    {before after : Deferred} {texts : List ClientText}
    (h : clientTexts b c endpoints before = (.ok texts, after)) :
    List.Forall₂ (fun e t => ∃ before after, b.client c e before = (.ok t, after)) endpoints
      texts := by
  induction endpoints generalizing before texts with
  | nil =>
    cases h
    exact .nil
  | cons e rest ih =>
    rw [clientTexts] at h
    split at h
    · cases h
    · rename_i t d first
      split at h
      · rename_i ts d' later
        cases h
        exact .cons ⟨_, _, first⟩ (ih later)
      · cases h

namespace Run

theorem renderUnit_eq_ok {r : Run} {u : OutputUnit} {before after : Deferred} {f : GeneratedFile}
    (h : r.state.renderUnit r.backend u (u.endpoints r.endpoints) before = (.ok f, after)) :
    ∃ c, r.Renders u c ∧ f = r.clientPage c := by
  unfold RunState.renderUnit at h
  dsimp only at h
  split at h
  · cases h
  · rename_i header opened
    split at h
    · cases h
    · rename_i texts d written
      split at h
      · cases h
      · rename_i footer closed
        cases h
        exact ⟨⟨u, header, texts, footer⟩,
          ⟨rfl, opened, clientTexts_forall₂ written, _, closed⟩, rfl⟩

theorem renderUnits_clean {r : Run} {units : List OutputUnit} {d : Deferred}
    (clean : (r.state.renderUnits r.backend r.endpoints units d).filterMap failedUnit? = []) :
    ∃ renderings, List.Forall₂ r.Renders units renderings ∧
      ((r.state.renderUnits r.backend r.endpoints units d).filterMap okUnit?).map Prod.snd =
        renderings.map r.clientPage := by
  induction units generalizing d with
  | nil => exact ⟨[], .nil, rfl⟩
  | cons u rest ih =>
    unfold RunState.renderUnits at clean ⊢
    dsimp only at clean ⊢
    generalize run : r.state.renderUnit r.backend u (u.endpoints r.endpoints) d = result at clean ⊢
    obtain ⟨outcome, after⟩ := result
    cases outcome with
    | error e => cases clean
    | ok f =>
      obtain ⟨c, renders, page⟩ := renderUnit_eq_ok run
      obtain ⟨others, later, pages⟩ := ih clean
      refine ⟨c :: others, .cons renders later, ?_⟩
      rw [List.map_cons, ← page, ← pages]
      rfl

theorem reachable_stored (r : Run) {name : String} (h : name ∈ r.reachable) :
    ∃ s, r.resolved.arena.find? name = some s := by
  have known := (Arena.reachable_closed _ _).stored name h
  exact Keyed.find?_of_mem_keys known

theorem reachable_nil {r : Run} (h : r.resolved.arena.schemas = []) : r.reachable = [] := by
  apply List.eq_nil_iff_forall_not_mem.mpr
  intro n mem
  obtain ⟨s, found⟩ := r.reachable_stored mem
  have stored := Keyed.mem_of_find? found
  rw [h] at stored
  cases stored

theorem modelFiles_nil {r : Run} (h : r.resolved.arena.schemas = []) : r.state.modelFiles = [] := by
  unfold state entries
  rw [reachable_nil h]
  simp [emitModels, ModelFile.assemble, Names.ofList]

theorem modelPages_nil {r : Run} (h : r.resolved.arena.schemas = []) : r.state.modelPages = [] := by
  unfold RunState.modelPages
  rw [modelFiles_nil h]
  rfl

theorem report_clean {r : Run} (clean : r.report.errors = []) :
    List.Forall₂ r.Emits r.reachable r.entries ∧ ∃ renderings,
      List.Forall₂ r.Renders r.units renderings ∧
        r.report.files = r.state.modelPages ++ renderings.map r.clientPage := by
  obtain ⟨models, units⟩ := List.append_eq_nil_iff.mp clean
  obtain ⟨renderings, renders, pages⟩ := renderUnits_clean units
  refine ⟨emitModels_forall₂ (fun n mem => r.reachable_stored mem) models, renderings, renders, ?_⟩
  rw [← pages]
  rfl

end Run

theorem emitModels_total {em : ModelEmitter} {c : ModelContext}
    (emits : ∀ n s, c.arena.find? n = some s → ∃ e, em.emit c n s = .ok e) (names : List String) :
    (emitModels em c names).2 = [] := by
  induction names with
  | nil => rfl
  | cons n rest ih =>
    unfold emitModels
    dsimp only
    split
    · exact ih
    · rename_i s found
      obtain ⟨e, run⟩ := emits n s found
      rw [run]
      exact ih

theorem clientTexts_total {b : Backend} {c : ClientContext} {endpoints : List Endpoint}
    (client : ∀ e ∈ endpoints, ∀ d, ∃ t after, b.client c e d = (.ok t, after)) (d : Deferred) :
    ∃ texts after, clientTexts b c endpoints d = (.ok texts, after) := by
  induction endpoints generalizing d with
  | nil => exact ⟨[], d, rfl⟩
  | cons e rest ih =>
    obtain ⟨t, after, first⟩ := client e List.mem_cons_self d
    obtain ⟨ts, last, later⟩ := ih (fun f mem => client f (List.mem_cons_of_mem _ mem)) after
    refine ⟨t :: ts, last, ?_⟩
    rw [clientTexts, first]
    dsimp only
    rw [later]

structure Run.Reliable (r : Run) : Prop where
  emit : ∀ n s, r.resolved.arena.find? n = some s → ∃ e, r.emitter.emit r.modelContext n s = .ok e
  header : ∀ c, ∃ text, r.backend.header c = .ok text
  client : ∀ unit, ∀ e ∈ r.endpoints, ∀ d, ∃ t after,
    r.backend.client ⟨unit, r.target, r.resolved.arena⟩ e d = (.ok t, after)
  footer : ∀ c d, ∃ text, r.backend.footer c d = .ok text

theorem Run.Reliable.renderUnit {r : Run} (h : r.Reliable) (u : OutputUnit)
    {endpoints : List Endpoint} (part : ∀ e ∈ endpoints, e ∈ r.endpoints) (d : Deferred) :
    ∃ f after, r.state.renderUnit r.backend u endpoints d = (.ok f, after) := by
  unfold RunState.renderUnit
  dsimp only
  obtain ⟨header, opened⟩ :=
    h.header ⟨u, r.backend.title u.name, endpoints, r.state.target, r.state.info⟩
  obtain ⟨texts, after, written⟩ :=
    clientTexts_total (fun e mem => h.client u.name e (part e mem)) d
  obtain ⟨footer, closed⟩ :=
    h.footer ⟨u, r.backend.title u.name, endpoints, r.state.target, r.state.info⟩ after
  refine ⟨r.state.unitPage r.backend u endpoints header texts footer, after, ?_⟩
  rw [opened]
  dsimp only
  have written : clientTexts r.backend ⟨u.name, r.state.target, r.state.resolved.arena⟩ endpoints d =
      (.ok texts, after) := written
  rw [written]
  dsimp only
  rw [closed]

/-- No unit and no model is lost. -/
theorem Run.Reliable.report_errors {r : Run} (h : r.Reliable) : r.report.errors = [] := by
  have models := emitModels_total (c := r.modelContext) h.emit r.reachable
  have units : ∀ (units : List OutputUnit) (d : Deferred),
      (r.state.renderUnits r.backend r.endpoints units d).filterMap failedUnit? = [] := by
    intro units
    induction units with
    | nil => exact fun _ => rfl
    | cons u rest ih =>
      intro d
      have part : ∀ e ∈ u.endpoints r.endpoints, e ∈ r.endpoints := by
        intro e mem
        obtain ⟨i, _, numbered⟩ := List.mem_filterMap.mp mem
        exact List.mem_of_getElem? numbered
      obtain ⟨f, after, run⟩ := h.renderUnit u part d
      unfold RunState.renderUnits
      dsimp only
      rw [run]
      exact ih _
  exact List.append_eq_nil_iff.mpr ⟨models, units r.units {}⟩

structure Run.Total (r : Run) : Prop where
  emit : ∀ c n s, ∃ e, r.emitter.emit c n s = .ok e
  header : ∀ c, ∃ text, r.backend.header c = .ok text
  client : ∀ c e d, ∃ t after, r.backend.client c e d = (.ok t, after)
  footer : ∀ c d, ∃ text, r.backend.footer c d = .ok text

theorem Run.Total.report_errors {r : Run} (h : r.Total) : r.report.errors = [] := by
  have reliable : r.Reliable :=
    ⟨fun n s _ => h.emit _ n s, h.header, fun _ e _ => h.client _ e, h.footer⟩
  exact reliable.report_errors

end TypedClients
