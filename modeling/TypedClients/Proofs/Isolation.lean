import TypedClients.Proofs.Generators
import TypedClients.Proofs.Keyed
import TypedClients.Proofs.Run
import TypedClients.Proofs.Units

namespace TypedClients

namespace Deferred

variable {d : Deferred} {operation other : String}

theorem find?_register_of_ne (text : String) (h : other ≠ operation) :
    (d.register operation text).find? other = d.find? other :=
  Keyed.find?_insert_of_ne text d.entries h

theorem find?_clear (d : Deferred) (names : List String) (n : String) :
    (d.clear names).find? n = if n ∈ names then none else d.find? n := by
  induction names generalizing d with
  | nil => rfl
  | cons first rest ih =>
    have step : d.clear (first :: rest) = Deferred.clear ⟨Keyed.erase first d.entries⟩ rest := rfl
    rw [step, ih]
    by_cases same : n = first
    · subst same
      have gone : Deferred.find? ⟨Keyed.erase n d.entries⟩ n = none :=
        Keyed.find?_erase_self n d.entries
      simp only [gone, List.mem_cons_self, ite_self, if_true]
    · have kept : Deferred.find? ⟨Keyed.erase first d.entries⟩ n = d.find? n :=
        Keyed.find?_erase_of_ne d.entries same
      simp only [kept, same, List.mem_cons, false_or]

theorem eq_empty_of_find? (h : ∀ n, d.find? n = none) : d = {} := by
  obtain ⟨entries⟩ := d
  cases entries with
  | nil => rfl
  | cons p rest =>
    have own : Keyed.find? p.1 (p :: rest) = none := h p.1
    simp [Keyed.find?] at own

end Deferred

/-- A call changes what is put off under the name of its operation and nothing else. -/
def Backend.DefersOwn (b : Backend) : Prop :=
  ∀ c e d operation, operation ≠ e.name.camel →
    (b.client c e d).2.find? operation = d.find? operation

theorem Client.fetch_defersOwn : Client.fetch.DefersOwn := fun _ _ _ _ _ => rfl

theorem Client.axios_defersOwn (style : Client.AxiosStyle) : (Client.axios style).DefersOwn :=
  fun _ _ _ _ other => Deferred.find?_register_of_ne _ other

theorem Zod.backend_defersOwn : Zod.backend.DefersOwn := fun _ _ _ _ _ => rfl

theorem CommandLine.registry_defersOwn {id : String} {b : Backend}
    (h : registry.backend id = .ok b) : b.DefersOwn := by
  rcases registry_backend h with rfl | rfl | rfl | rfl
  · exact Client.fetch_defersOwn
  · exact Client.axios_defersOwn _
  · exact Client.axios_defersOwn _
  · exact Zod.backend_defersOwn

/-- The footer ends with the texts that are put off for the operations of the unit, in their order;
what stands before them does not depend on them. -/
def Backend.WritesDeferred (b : Backend) : Prop :=
  ∀ c, ∃ front : List String, ∀ d, b.footer c d = .ok ("\n\n".intercalate
    ((front ++ ["\n\n".intercalate ((c.endpoints.map (·.name.camel)).filterMap d.find?)]).filter
      (· != "")))

def Backend.DefersNothing (b : Backend) : Prop := ∀ c e d, (b.client c e d).2 = d

theorem Client.fetch_writesDeferred : Client.fetch.WritesDeferred := by
  intro c
  refine ⟨[], fun d => ?_⟩
  show Except.ok (flushed c d) = _
  unfold flushed Deferred.flush Text.join UnitContext.operationNames
  rw [List.nil_append]
  generalize "\n\n".intercalate _ = text
  by_cases empty : text = ""
  · rw [empty]
    rfl
  · rw [List.filter_cons_of_pos (by simpa using empty), List.filter_nil,
      String.intercalate_singleton]

theorem Client.axios_writesDeferred (style : Client.AxiosStyle) :
    (Client.axios style).WritesDeferred := fun c => ⟨[axiosExports style c], fun _ => rfl⟩

structure Call where
  endpoint : Endpoint
  before : Deferred
  result : Except GenerationError ClientText
  after : Deferred

/-- What the call leaves under the name of its operation. -/
def Call.text? (k : Call) : Option String := k.after.find? k.endpoint.name.camel

/-- The calls for a unit's operations. The first that fails is the last. -/
def calls (b : Backend) (c : ClientContext) : List Endpoint → Deferred → List Call
  | [], _ => []
  | e :: rest, d =>
    let (result, after) := b.client c e d
    ⟨e, d, result, after⟩ ::
      match result with
      | .ok _ => calls b c rest after
      | .error _ => []

def operationNames (endpoints : List Endpoint) : List String := endpoints.map (·.name.camel)

section

variable {b : Backend} {c : ClientContext} {d : Deferred} {e : Endpoint}
  {endpoints : List Endpoint}

theorem clientTexts_cons_ok (rest : List Endpoint) {t : ClientText} {after : Deferred}
    (run : b.client c e d = (.ok t, after)) :
    calls b c (e :: rest) d = ⟨e, d, .ok t, after⟩ :: calls b c rest after ∧
      (clientTexts b c (e :: rest) d).2 = (clientTexts b c rest after).2 := by
  constructor
  · rw [calls, run]
  · rw [clientTexts, run]
    dsimp only
    split
    · rename_i later
      rw [later]
    · rename_i later
      rw [later]

theorem clientTexts_cons_error (rest : List Endpoint) {err : GenerationError} {after : Deferred}
    (run : b.client c e d = (.error err, after)) :
    calls b c (e :: rest) d = [⟨e, d, .error err, after⟩] ∧
      (clientTexts b c (e :: rest) d).2 = after := by
  constructor
  · rw [calls, run]
  · rw [clientTexts, run]

theorem clientTexts_find? (own : b.DefersOwn) {n : String} (other : n ∉ operationNames endpoints) :
    (clientTexts b c endpoints d).2.find? n = d.find? n := by
  induction endpoints generalizing d with
  | nil => rfl
  | cons e rest ih =>
    have different : n ≠ e.name.camel := fun same => other (by simp [operationNames, same])
    have later : n ∉ operationNames rest := fun mem => other (List.mem_cons_of_mem _ mem)
    have first := own c e d n different
    cases run : b.client c e d with
    | mk result after =>
      rw [run] at first
      cases result with
      | ok t =>
        rw [(clientTexts_cons_ok rest run).2, ih later]
        exact first
      | error err =>
        rw [(clientTexts_cons_error rest run).2]
        exact first

/-- Distinct operations find nothing under their names, and what they leave is there at the end, in
their order. -/
theorem clientTexts_flush (own : b.DefersOwn) (distinct : (operationNames endpoints).Nodup)
    (fresh : ∀ n ∈ operationNames endpoints, d.find? n = none) :
    (clientTexts b c endpoints d).2.flush (operationNames endpoints) =
        (calls b c endpoints d).filterMap Call.text? ∧
      ∀ k ∈ calls b c endpoints d, k.before.find? k.endpoint.name.camel = none := by
  induction endpoints generalizing d with
  | nil => exact ⟨rfl, fun k none => by cases none⟩
  | cons e rest ih =>
    obtain ⟨once, distinct⟩ := List.nodup_cons.mp distinct
    have start : d.find? e.name.camel = none := fresh _ List.mem_cons_self
    -- The first call changes nothing under the names of the others.
    have unused : ∀ n ∈ operationNames rest, (b.client c e d).2.find? n = none := by
      intro n mem
      have different : n ≠ e.name.camel := by
        rintro rfl
        exact once mem
      rw [own c e d n different]
      exact fresh n (List.mem_cons_of_mem _ mem)
    cases run : b.client c e d with
    | mk result after =>
      rw [run] at unused
      cases result with
      | ok t =>
        obtain ⟨made, left⟩ := clientTexts_cons_ok rest run
        obtain ⟨flushed, before⟩ := ih distinct unused
        have first : (clientTexts b c rest after).2.find? e.name.camel = after.find? e.name.camel :=
          clientTexts_find? own once
        rw [made, left]
        constructor
        · show List.filterMap _ (e.name.camel :: operationNames rest) = _
          rw [List.filterMap_cons, List.filterMap_cons, first]
          unfold Deferred.flush at flushed
          rw [flushed]
          rfl
        · intro k mem
          rcases List.mem_cons.mp mem with rfl | later
          · exact start
          · exact before k later
      | error err =>
        obtain ⟨made, left⟩ := clientTexts_cons_error rest run
        rw [made, left]
        constructor
        · have nothing : (operationNames rest).filterMap after.find? = [] :=
            List.filterMap_eq_nil_iff.mpr unused
          show List.filterMap _ (e.name.camel :: operationNames rest) = _
          rw [List.filterMap_cons, List.filterMap_cons, nothing]
          rfl
        · intro k mem
          have same := List.mem_singleton.mp mem
          rw [same]
          exact start

end

namespace RunState

variable {r : RunState} {b : Backend} {endpoints : List Endpoint}

/-- What is put off when some units are done. -/
def deferredAfter (r : RunState) (b : Backend) (endpoints : List Endpoint) :
    List OutputUnit → Deferred → Deferred
  | [], d => d
  | u :: rest, d =>
    let own := u.endpoints endpoints
    r.deferredAfter b endpoints rest ((r.renderUnit b u own d).2.clear (operationNames own))

theorem renderUnits_append (front back : List OutputUnit) (d : Deferred) :
    r.renderUnits b endpoints (front ++ back) d = r.renderUnits b endpoints front d ++
      r.renderUnits b endpoints back (r.deferredAfter b endpoints front d) := by
  induction front generalizing d with
  | nil => rfl
  | cons u rest ih =>
    rw [List.cons_append, renderUnits, renderUnits, List.cons_append, deferredAfter]
    exact congrArg _ (ih _)

theorem renderUnit_deferred (r : RunState) (b : Backend) (u : OutputUnit) (own : List Endpoint)
    (d : Deferred) : (r.renderUnit b u own d).2 = d ∨ (r.renderUnit b u own d).2 =
      (clientTexts b ⟨u.name, r.target, r.resolved.arena⟩ own d).2 := by
  unfold renderUnit
  dsimp only
  split
  · exact .inl rfl
  · right
    split
    · rename_i failed
      rw [failed]
    · rename_i written
      rw [written]
      split <;> rfl

/-- Wherever a unit fails, clearing its own names clears everything. -/
theorem clear_renderUnit (own : b.DefersOwn) (u : OutputUnit) (members : List Endpoint) :
    (r.renderUnit b u members {}).2.clear (operationNames members) = {} := by
  apply Deferred.eq_empty_of_find?
  intro n
  rw [Deferred.find?_clear]
  split
  · rfl
  · rename_i other
    rcases r.renderUnit_deferred b u members {} with same | same
    · rw [same]
      rfl
    · rw [same, clientTexts_find? own other]
      rfl

theorem deferredAfter_empty (own : b.DefersOwn) (units : List OutputUnit) :
    r.deferredAfter b endpoints units {} = {} := by
  induction units with
  | nil => rfl
  | cons u rest ih =>
    rw [deferredAfter, clear_renderUnit own]
    exact ih

def renderAlone (r : RunState) (b : Backend) (endpoints : List Endpoint) (u : OutputUnit) :
    Except GenerationError GeneratedFile := (r.renderUnit b u (u.endpoints endpoints) {}).1

theorem renderUnits_alone (own : b.DefersOwn) (units : List OutputUnit) :
    r.renderUnits b endpoints units {} =
      units.map fun u => (u, r.renderAlone b endpoints u) := by
  induction units with
  | nil => rfl
  | cons u rest ih =>
    have cleared := clear_renderUnit (r := r) own u (u.endpoints endpoints)
    unfold operationNames at cleared
    rw [renderUnits, List.map_cons]
    dsimp only
    rw [cleared, ih]
    rfl

theorem renderAlone_eq (r : RunState) (b : Backend) (endpoints : List Endpoint) (u : OutputUnit) :
    r.renderAlone b endpoints u = do
      let own := u.endpoints endpoints
      let c : UnitContext := ⟨u, b.title u.name, own, r.target, r.info⟩
      let written := clientTexts b ⟨u.name, r.target, r.resolved.arena⟩ own {}
      let header ← b.header c
      let texts ← written.1
      let footer ← b.footer c written.2
      return r.unitPage b u own header texts footer := by
  unfold renderAlone renderUnit
  dsimp only
  generalize b.header _ = opened
  cases opened with
  | error e => rfl
  | ok header =>
    dsimp only
    generalize clientTexts b _ _ _ = written
    obtain ⟨texts, after⟩ := written
    cases texts with
    | error e => rfl
    | ok texts =>
      dsimp only
      generalize b.footer _ after = closed
      cases closed <;> rfl

end RunState

namespace Run

variable {r : Run} {u : OutputUnit}

/-- The file or the error of a unit that is rendered by itself. -/
def alone (r : Run) (u : OutputUnit) : Except GenerationError GeneratedFile :=
  r.state.renderAlone r.backend r.endpoints u

def calls (r : Run) (u : OutputUnit) : List Call :=
  TypedClients.calls r.backend (r.clientContext u) (u.endpoints r.endpoints) {}

/-- What is put off when the footer of a unit is written. -/
def deferred (r : Run) (u : OutputUnit) : Deferred :=
  (clientTexts r.backend (r.clientContext u) (u.endpoints r.endpoints) {}).2

theorem alone_eq (r : Run) (u : OutputUnit) : r.alone u = do
    let header ← r.backend.header (r.unitContext u)
    let texts ← (clientTexts r.backend (r.clientContext u) (u.endpoints r.endpoints) {}).1
    let footer ← r.backend.footer (r.unitContext u) (r.deferred u)
    return r.state.unitPage r.backend u (u.endpoints r.endpoints) header texts footer :=
  RunState.renderAlone_eq r.state r.backend r.endpoints u

theorem report_alone (own : r.backend.DefersOwn) : r.report.files =
    r.state.modelPages ++ r.units.filterMap fun u => (r.alone u).toOption := by
  have results : r.state.renderUnits r.backend r.endpoints r.units {} =
      r.units.map fun u => (u, r.alone u) := RunState.renderUnits_alone own r.units
  show r.state.modelPages ++ ((r.state.renderUnits r.backend r.endpoints r.units {}).filterMap
    okUnit?).map Prod.snd = _
  rw [results, List.filterMap_map, List.map_filterMap]
  congr 2
  funext u
  show (okUnit? (u, r.alone u)).map Prod.snd = _
  cases r.alone u <;> rfl

/-- Another backend does the same for a unit, whatever it does for others. -/
structure Alike (r : Run) (other : Backend) (u : OutputUnit) : Prop where
  title : other.title u.name = r.backend.title u.name
  header : other.header (r.unitContext u) = r.backend.header (r.unitContext u)
  client : ∀ e ∈ u.endpoints r.endpoints, ∀ d,
    other.client (r.clientContext u) e d = r.backend.client (r.clientContext u) e d
  footer : ∀ d, other.footer (r.unitContext u) d = r.backend.footer (r.unitContext u) d
  dependencies : ∀ o, other.dependencies o = r.backend.dependencies o

end Run

theorem clientTexts_congr {b other : Backend} {c : ClientContext} {endpoints : List Endpoint}
    (same : ∀ e ∈ endpoints, ∀ d, other.client c e d = b.client c e d) (d : Deferred) :
    clientTexts other c endpoints d = clientTexts b c endpoints d := by
  induction endpoints generalizing d with
  | nil => rfl
  | cons e rest ih =>
    have later := ih fun f mem => same f (List.mem_cons_of_mem _ mem)
    rw [clientTexts, clientTexts, same e List.mem_cons_self]
    simp only [later]

namespace Run

variable {r : Run} {u : OutputUnit}

theorem Alike.alone {other : Backend} (h : r.Alike other u) :
    r.state.renderAlone other r.endpoints u = r.alone u := by
  have context : (⟨u, other.title u.name, u.endpoints r.endpoints, r.target, r.state.info⟩ :
      UnitContext) = r.unitContext u := by
    rw [h.title]
    rfl
  have texts : clientTexts other (r.clientContext u) (u.endpoints r.endpoints) {} =
      clientTexts r.backend (r.clientContext u) (u.endpoints r.endpoints) {} :=
    clientTexts_congr h.client {}
  have page : ∀ header texts footer,
      r.state.unitPage other u (u.endpoints r.endpoints) header texts footer =
        r.state.unitPage r.backend u (u.endpoints r.endpoints) header texts footer := by
    intro header texts footer
    simp only [RunState.unitPage, RunState.unitImports, h.dependencies]
  rw [alone_eq, RunState.renderAlone_eq]
  have at_unit : (⟨u.name, r.state.target, r.state.resolved.arena⟩ : ClientContext) =
      r.clientContext u := rfl
  have at_target : r.state.target = r.target := rfl
  simp only [at_unit, texts, page]
  rw [at_target, context, h.header]
  simp only [h.footer]
  rfl

theorem Starts.names_nodup {registry : Registry} {doc : Document} (h : r.Starts registry doc)
    (unit : u ∈ r.units) : (operationNames (u.endpoints r.endpoints)).Nodup :=
  OutputUnit.names_nodup (List.findSome?_eq_none_iff.mp h.distinct u unit)

end Run

/-- Units are isolated from each other. When a unit starts nothing is put off, its footer finds
what its own calls have put off and nothing else, and its file or its error is that of the unit
alone: it stays the same whatever the backend does for other units, so no unit that fails, and none
with an operation of the same name, changes it. The backends that put texts off write them in the
footer. -/
theorem Registry.run_isolated {registry : Registry} {doc : Document} {target : Target}
    {report : Report} (h : registry.run doc target = .ok report)
    (own : ∀ b, registry.backend target.client = .ok b → b.DefersOwn) :
    ((∀ id b, CommandLine.registry.backend id = .ok b → b.DefersOwn) ∧
      Client.fetch.WritesDeferred ∧ (∀ style, (Client.axios style).WritesDeferred) ∧
      Zod.backend.DefersNothing) ∧
    ∃ r : Run, (r.Starts registry doc ∧ r.target = target) ∧
      (report.files = r.state.modelPages ++ r.units.filterMap (fun u => (r.alone u).toOption) ∧
        report.errors = (emitModels r.emitter r.modelContext r.reachable).2 ++
          r.units.filterMap fun u => failedUnit? (u, r.alone u)) ∧
      (∀ front u back, r.units = front ++ u :: back →
        r.state.deferredAfter r.backend r.endpoints front {} = {} ∧
        r.state.renderUnits r.backend r.endpoints r.units {} =
          r.state.renderUnits r.backend r.endpoints front {} ++
            (u, r.alone u) :: r.state.renderUnits r.backend r.endpoints back {}) ∧
      (∀ u ∈ r.units,
        (r.alone u = do
          let header ← r.backend.header (r.unitContext u)
          let texts ← (clientTexts r.backend (r.clientContext u) (u.endpoints r.endpoints) {}).1
          let footer ← r.backend.footer (r.unitContext u) (r.deferred u)
          return r.state.unitPage r.backend u (u.endpoints r.endpoints) header texts footer) ∧
        (r.deferred u).flush (operationNames (u.endpoints r.endpoints)) =
          (r.calls u).filterMap Call.text? ∧
        (∀ k ∈ r.calls u, k.before.find? k.endpoint.name.camel = none) ∧
        ∀ n, n ∉ operationNames (u.endpoints r.endpoints) → (r.deferred u).find? n = none) ∧
      ∀ other : Backend, other.DefersOwn → ∀ (i : Nat) (u : OutputUnit), r.units[i]? = some u →
        r.Alike other u →
          (r.state.renderUnits other r.endpoints r.units {})[i]? = some (u, r.alone u) := by
  refine ⟨⟨fun id b found => CommandLine.registry_defersOwn found, Client.fetch_writesDeferred,
    Client.axios_writesDeferred, fun _ _ _ => rfl⟩, ?_⟩
  obtain ⟨r, starts, rfl, rfl⟩ := Run.run_eq_ok.mp h
  have own : r.backend.DefersOwn := own _ starts.backend
  have results : ∀ units, r.state.renderUnits r.backend r.endpoints units {} =
      units.map fun u => (u, r.alone u) := fun units => RunState.renderUnits_alone own units
  refine ⟨r, ⟨starts, rfl⟩, ⟨?_, ?_⟩, fun front u back split => ?_, fun u unit => ?_, ?_⟩
  · exact Run.report_alone own
  · show _ ++ (r.state.renderUnits r.backend r.endpoints r.units {}).filterMap failedUnit? = _
    rw [results, List.filterMap_map]
    rfl
  · refine ⟨RunState.deferredAfter_empty own front, ?_⟩
    rw [split, RunState.renderUnits_append, RunState.deferredAfter_empty own front,
      results (u :: back), results back, List.map_cons]
  · have distinct := starts.names_nodup unit
    obtain ⟨flushed, before⟩ := clientTexts_flush (c := r.clientContext u) (d := {}) own distinct
      fun n _ => rfl
    exact ⟨r.alone_eq u, flushed, before, fun n other => clientTexts_find? own other⟩
  · intro other alien i u at_i alike
    rw [RunState.renderUnits_alone alien, List.getElem?_map, at_i, Option.map_some, alike.alone]

def wardOperation (tag : String) : Operation := { operationId := some "list", tags := [tag] }

def wards : Document where
  openapi := "3.0.3"
  info := { title := "Wards", version := "1" }
  paths := [("/north", { operations := [(.get, wardOperation "north")] }),
    ("/south", { operations := [(.get, wardOperation "south")] })]

/-- Every call puts a text off, and those of the unit `north` fail after that. -/
def rounds : Backend where
  id := "rounds"
  title name := name
  header _ := .ok ""
  footer c d := .ok (Text.join "\n" (d.flush c.operationNames))
  dependencies _ := []
  client c e d :=
    (if c.unit = "north" then .error (.unsupported "north") else .ok ⟨"", []⟩,
      d.register e.name.camel ("// " ++ c.unit))

def roundsTarget : Target := { client := "rounds", mode := .tags }

def wardsRun (e f : Endpoint) : Run :=
  ⟨rounds, TypeScript.emitter, ⟨wards, ⟨[]⟩⟩, roundsTarget, [e, f]⟩

theorem rounds_defersOwn : rounds.DefersOwn :=
  fun _ _ _ _ other => Deferred.find?_register_of_ne _ other

theorem wards_endpoints : ∃ e f, buildEndpoints ⟨wards, ⟨[]⟩⟩ roundsTarget = .ok [e, f] ∧
    e.name.camel = "list" ∧ f.name.camel = "list" ∧ e.tags = ["north"] ∧ f.tags = ["south"] :=
  ⟨_, _, rfl, by decide, by decide, rfl, rfl⟩

theorem wardsRun_units {e f : Endpoint} (north : e.tags = ["north"]) (south : f.tags = ["south"]) :
    (wardsRun e f).units = [⟨"north", "north.ts", [0]⟩, ⟨"south", "south.ts", [1]⟩] := by
  have first : e.firstTag = "north" := by simp [Endpoint.firstTag, north]
  have second : f.firstTag = "south" := by simp [Endpoint.firstTag, south]
  have north_stem : stem "north" = "north" := by decide
  have south_stem : stem "south" = "south" := by decide
  have north_key : Text.lower "north" = "north" := by decide
  have south_key : Text.lower "south" = "south" := by decide
  have groups : groupBy (fun e => Text.lower (stem e.firstTag)) Endpoint.firstTag [e, f] =
      [⟨"north", "north", [0]⟩, ⟨"south", "south", [1]⟩] := by
    simp [groupBy, List.zipIdx, addToGroup, first, second, north_stem, south_stem, north_key,
      south_key]
  show (tagGroups [e, f]).map _ = _
  rw [KeyGroup.tagGroups_of_sorted groups (by decide)]
  simp [north_stem, south_stem]

theorem Registry.run_isolated_wards : ∃ (report : Report) (r : Run) (page : GeneratedFile),
    (Registry.register {} rounds).run wards roundsTarget = .ok report ∧ rounds.DefersOwn ∧
      operationNames r.endpoints = ["list", "list"] ∧
      report.files = [page] ∧ report.errors.length = 1 ∧
      r.alone ⟨"south", "south.ts", [1]⟩ = .ok page ∧
      (r.deferred ⟨"south", "south.ts", [1]⟩).flush ["list"] = ["// south"] := by
  obtain ⟨e, f, built, e_name, f_name, north, south⟩ := wards_endpoints
  have units := wardsRun_units north south
  have starts : (wardsRun e f).Starts (Registry.register {} rounds) wards :=
    { backend := rfl, emitter := rfl, resolved := rfl, endpoints := built,
      distinct := by rw [units]; rfl }
  have run := Run.run_eq_ok.mpr ⟨_, starts, rfl, rfl⟩
  obtain ⟨_, r, ⟨begun, target⟩, ⟨files, errors⟩, _, rendered, _⟩ :=
    Registry.run_isolated run fun b found => by
      cases starts.backend.symm.trans found
      exact rounds_defersOwn
  cases begun.unique starts target
  rw [units] at files errors rendered
  obtain ⟨north_page, _⟩ := rendered _ (.head _)
  obtain ⟨south_page, flushed, _⟩ := rendered _ (.tail _ (.head _))
  have failed : ∃ err, (wardsRun e f).alone ⟨"north", "north.ts", [0]⟩ = .error err :=
    ⟨_, north_page⟩
  have written : ∃ page, (wardsRun e f).alone ⟨"south", "south.ts", [1]⟩ = .ok page :=
    ⟨_, south_page⟩
  have names : operationNames ([1].filterMap fun i => [e, f][i]?) = ["list"] := by
    simp [operationNames, f_name]
  have left : ((wardsRun e f).deferred ⟨"south", "south.ts", [1]⟩).flush ["list"] =
      ["// south"] := by
    rw [← names]
    refine flushed.trans ?_
    show [((Deferred.register {} f.name.camel "// south").find? f.name.camel)].filterMap id = _
    rw [f_name]
    decide
  have nothing : (wardsRun e f).reachable = [] := Run.reachable_nil rfl
  have pages : (wardsRun e f).state.modelPages = [] := Run.modelPages_nil rfl
  obtain ⟨err, failed⟩ := failed
  obtain ⟨page, written⟩ := written
  refine ⟨_, _, page, run, rounds_defersOwn, ?_, ?_, ?_, written, left⟩
  · show [e.name.camel, f.name.camel] = _
    rw [e_name, f_name]
  · rw [files, pages]
    simp [failed, written, Except.toOption]
  · rw [errors, nothing]
    simp [failed, written, emitModels, failedUnit?]

end TypedClients
