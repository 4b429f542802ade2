import TypedClients.Proofs.Agreement
import TypedClients.Proofs.Respelling

namespace TypedClients

namespace SchemaRef

theorem refersTo_of_normalRef {r : SchemaRef} {name : String} (h : (normalRef r).RefersTo name) :
    r.RefersTo name := by
  induction r using SchemaRef.induction with
  | ref path =>
    rw [normalRef, refersTo_ref] at h
    exact refersTo_ref.mpr (schemaName?_normalReference.mp h)
  | item s ih =>
    rw [normalRef] at h
    rcases refersTo_item.mp h with ⟨d, key, target, given, entry, named⟩ | ⟨c, held, h⟩
    · have same : (normalSchema s).toKeywords = s.toKeywords := by
        cases s
        rw [normalSchema]
      have given : s.discriminator = some d :=
        (congrArg Keywords.discriminator same).symm.trans given
      exact refersTo_item.mpr (.inl ⟨d, key, target, given, entry, named⟩)
    · obtain ⟨original, stands, rfl⟩ := Schema.holds_of_normal held
      exact refersTo_item.mpr (.inr ⟨original, stands, ih original stands h⟩)

end SchemaRef

theorem refersTo_addTagValue {key name : String} {s : Schema}
    (h : SchemaRef.RefersTo (.item (addTagValue key s)) name) :
    SchemaRef.RefersTo (.item s) name := by
  have same : (addTagValue key s).discriminator = s.discriminator := by
    unfold addTagValue
    split <;> rfl
  rw [SchemaRef.refersTo_item, same] at h
  simp only [holds_addTagValue] at h
  exact SchemaRef.refersTo_item.mpr h

theorem Schema.refersTo_injectTag {s : Schema} {property key name : String} {first : Bool}
    (h : SchemaRef.RefersTo (.item (s.injectTag property key first)) name) :
    SchemaRef.RefersTo (.item s) name := by
  rcases SchemaRef.refersTo_item.mp h with own | ⟨c, held, h⟩
  · exact SchemaRef.refersTo_item.mpr (.inl own)
  · rcases holds_injectTag held with earlier | rfl | ⟨p, earlier, rfl⟩
    · exact SchemaRef.refersTo_item.mpr (.inr ⟨c, earlier, h⟩)
    · rcases SchemaRef.refersTo_item.mp h with ⟨d, _, _, none, _⟩ | ⟨_, none, _⟩
      · cases none
      · exact absurd none (not_holds_tagSchema rfl)
    · exact SchemaRef.refersTo_item.mpr (.inr ⟨_, earlier, refersTo_addTagValue h⟩)

namespace Arena

variable {small large : Arena} {p : String × SchemaRef}

theorem find?_of_gains (h : Keyed.Gains p small.schemas large.schemas) (fresh : p.1 ∉ small.names)
    {n : String} {r : SchemaRef} (found : small.find? n = some r) : large.find? n = some r := by
  have other : n ≠ p.1 := by
    rintro rfl
    exact fresh (Keyed.mem_keys_of_find? found)
  exact (h.find? other).trans found

theorem mappingEntries_of_gains {n : String} {s : SchemaRef}
    (h : Keyed.Gains (n, s) small.schemas large.schemas) (unmapped : s.Unmapped) :
    large.mappingEntries = small.mappingEntries := by
  obtain ⟨before, after, old, new⟩ := h
  unfold mappingEntries
  rw [old, new]
  simp only [List.flatMap_append, List.flatMap_cons, unmapped.entries n, List.nil_append]

end Arena

namespace Injection

variable {i j wide : Injection} {p : String × SchemaRef}

structure Gains (p : String × SchemaRef) (i wide : Injection) : Prop where
  schemas : Keyed.Gains p i.arena.schemas wide.arena.schemas
  fresh : p.1 ∉ i.arena.names
  written : wide.written = i.written

theorem Gains.add {e : MappingEntry} (h : i.Gains p wide) (step : i.add e = .ok j) :
    ∃ after, wide.add e = .ok after ∧ j.Gains p after := by
  unfold Injection.add at step ⊢
  simp only [Outcome.bind_eq_ok, Outcome.pure_eq_ok] at step
  obtain ⟨⟨target, s⟩, found, rfl⟩ := step
  have find : ∀ n r, i.arena.find? n = some r → wide.arena.find? n = some r :=
    fun _ _ => Arena.find?_of_gains h.schemas h.fresh
  obtain ⟨⟨n, named, stands⟩, stored⟩ := Arena.mappingTarget_eq_ok.mp found
  have known : target ∈ Keyed.keys i.arena.schemas := Keyed.mem_keys_of_find? stored
  have other : target ≠ p.1 := by
    rintro rfl
    exact h.fresh known
  rw [Arena.mappingTarget_eq_ok.mpr ⟨⟨n, named, stands.mono find⟩, find target _ stored⟩]
  refine ⟨_, rfl, ?_⟩
  constructor
  · rw [h.written]
    exact h.schemas.insert other _
  · show p.1 ∉ Keyed.keys (Keyed.insert target _ i.arena.schemas)
    rw [Keyed.keys_insert, if_pos known]
    exact h.fresh
  · dsimp only
    rw [h.written]

theorem Gains.addAll {entries : List MappingEntry} (h : i.Gains p wide)
    (run : i.addAll entries = .ok j) :
    ∃ after, wide.addAll entries = .ok after ∧ j.Gains p after := by
  induction entries generalizing i wide with
  | nil =>
    rw [addAll_nil] at run
    cases run
    exact ⟨wide, rfl, h⟩
  | cons e rest ih =>
    rw [addAll_cons] at run
    cases step : i.add e with
    | error => rw [step] at run; cases run
    | ok next =>
      rw [step] at run
      obtain ⟨after, wide_step, gains⟩ := h.add step
      rw [addAll_cons, wide_step]
      exact ih gains run

theorem Gains.injectDiscriminators {small large : Arena} {n : String} {s : SchemaRef}
    (h : Gains (n, s) ⟨small, []⟩ ⟨large, []⟩) (unmapped : s.Unmapped)
    (run : small.injectDiscriminators = .ok i) :
    ∃ wide, large.injectDiscriminators = .ok wide ∧ i.Gains (n, s) wide := by
  unfold Arena.injectDiscriminators at run ⊢
  rw [Arena.mappingEntries_of_gains h.schemas unmapped]
  exact h.addAll run

end Injection

namespace Document

open Outcome

variable {doc other : Document}

/-- The other document has the same operations and components, and declares all that the first
does. -/
structure Widens (doc other : Document) : Prop where
  paths : other.paths = doc.paths
  parameters : other.parameterTable = doc.parameterTable
  requestBodies : other.requestBodyTable = doc.requestBodyTable
  responses : other.responseTable = doc.responseTable
  declares : ∀ n, doc.declares n = true → other.declares n = true

namespace Widens

variable (wide : doc.Widens other)
include wide

theorem knows {s : SchemaRef} (h : doc.Knows s) : other.Knows s := by
  intro path mentioned
  obtain ⟨n, named, known⟩ := h path mentioned
  exact ⟨n, named, wide.declares n known⟩

theorem checkOption (location : String) (o : Option SchemaRef) :
    Refines (doc.checkOption location o) (other.checkOption location o) := by
  unfold Document.checkOption
  cases o with
  | none => exact .refl _
  | some source =>
    apply Refines.map
    intro s run
    obtain ⟨same, known⟩ := checkSchema_iff.mp run
    exact checkSchema_iff.mpr ⟨same, wide.knows known⟩

theorem resolveParameter (location : String) (r : Referenced Parameter) :
    Refines (doc.resolveParameter location r) (other.resolveParameter location r) := by
  unfold Document.resolveParameter
  rw [wide.parameters]
  apply (Refines.refl _).bind
  intro p
  exact (wide.checkOption location p.schema).bind fun _ => .refl _

theorem resolveParameters (location : String) (rs : List (Referenced Parameter)) :
    Refines (doc.resolveParameters location rs) (other.resolveParameters location rs) := by
  unfold Document.resolveParameters
  apply Refines.mapM
  intro p
  exact (wide.resolveParameter _ p.1).map _

theorem resolveContent (location : String) (content : List (String × MediaType)) :
    Refines (doc.resolveContent location content) (other.resolveContent location content) := by
  unfold Document.resolveContent
  apply Refines.mapM
  intro p
  exact (wide.checkOption _ p.2.schema).bind fun _ => .refl _

theorem resolveRequestBody (location : String) (b : Referenced RequestBody) :
    Refines (doc.resolveRequestBody location b) (other.resolveRequestBody location b) := by
  unfold Document.resolveRequestBody
  rw [wide.requestBodies]
  apply (Refines.refl _).bind
  intro b
  exact (wide.resolveContent location b.content).bind fun _ => .refl _

theorem resolveOptionalBody (location : String) (b : Option (Referenced RequestBody)) :
    Refines (doc.resolveOptionalBody location b) (other.resolveOptionalBody location b) := by
  cases b with
  | none => exact .refl _
  | some b => exact (wide.resolveRequestBody location b).map _

theorem resolveResponse (location : String) (r : Referenced Response) :
    Refines (doc.resolveResponse location r) (other.resolveResponse location r) := by
  unfold Document.resolveResponse
  rw [wide.responses]
  apply (Refines.refl _).bind
  intro r
  exact (wide.resolveContent location r.content).bind fun _ => .refl _

theorem resolveOperation (location : String) (op : Operation) :
    Refines (doc.resolveOperation location op) (other.resolveOperation location op) := by
  unfold Document.resolveOperation
  apply (wide.resolveParameters _ _).bind
  intro parameters
  apply (wide.resolveOptionalBody _ _).bind
  intro requestBody
  apply Refines.bind
  · apply Refines.mapM
    intro p
    exact (wide.resolveResponse _ p.2).bind fun _ => .refl _
  · exact fun _ => .refl _

theorem resolvePathItem (location : String) (item : PathItem) :
    Refines (doc.resolvePathItem location item) (other.resolvePathItem location item) := by
  unfold Document.resolvePathItem
  apply (wide.resolveParameters _ _).bind
  intro parameters
  apply Refines.bind
  · apply Refines.mapM
    intro p
    exact (wide.resolveOperation _ p.2).bind fun _ => .refl _
  · exact fun _ => .refl _

theorem resolvePaths : Refines doc.resolvePaths other.resolvePaths := by
  unfold Document.resolvePaths
  rw [wide.paths]
  apply Refines.mapM
  intro p
  exact (wide.resolvePathItem _ p.2).bind fun _ => .refl _

end Widens

def withSchemas (doc : Document) (schemas : List (String × SchemaRef)) : Document :=
  { doc with components := some { doc.components.getD {} with schemas } }

section

variable (doc : Document) (schemas : List (String × SchemaRef))

theorem withSchemas_parameterTable :
    (doc.withSchemas schemas).parameterTable = doc.parameterTable := by
  unfold parameterTable withSchemas
  cases doc.components <;> rfl

theorem withSchemas_requestBodyTable :
    (doc.withSchemas schemas).requestBodyTable = doc.requestBodyTable := by
  unfold requestBodyTable withSchemas
  cases doc.components <;> rfl

theorem withSchemas_responseTable :
    (doc.withSchemas schemas).responseTable = doc.responseTable := by
  unfold responseTable withSchemas
  cases doc.components <;> rfl

end

/-- The document speaks of a schema of that name. -/
def Mentions (doc : Document) (name : String) : Prop := ∃ s, doc.Gives s ∧ s.RefersTo name

variable {before after : List (String × SchemaRef)} {name : String} {s : SchemaRef}

theorem declaredSchemas_withSchemas (schemas : doc.componentSchemas = before ++ after)
    (fresh : doc.declares name = false) : Keyed.Gains (name, s) doc.declaredSchemas
      (doc.withSchemas (before ++ (name, s) :: after)).declaredSchemas := by
  have unknown : name ∉ Keyed.keys doc.definitions ∧ name ∉ Keyed.keys before ∧
      name ∉ Keyed.keys after := by
    have absent : ¬ name ∈ Keyed.keys doc.declaredSchemas := by
      rw [← declares_iff, fresh]
      exact Bool.false_ne_true
    rwa [declaredSchemas, schemas, Keyed.keys_insertAll, not_or, Keyed.keys.eq_1 (before ++ after),
      List.map_append, List.mem_append, not_or] at absent
  unfold declaredSchemas
  show Keyed.Gains _ _ (Keyed.insertAll doc.definitions (before ++ (name, s) :: after))
  rw [schemas]
  unfold Keyed.insertAll
  rw [List.foldl_append, List.foldl_append, List.foldl_cons]
  apply Keyed.Gains.insertAll _ unknown.2.2
  apply Keyed.gains_insert
  rw [← Keyed.insertAll, Keyed.keys_insertAll]
  tauto

theorem widens_withSchemas (schemas : doc.componentSchemas = before ++ after)
    (fresh : doc.declares name = false) :
    doc.Widens (doc.withSchemas (before ++ (name, s) :: after)) where
  paths := rfl
  parameters := doc.withSchemas_parameterTable _
  requestBodies := doc.withSchemas_requestBodyTable _
  responses := doc.withSchemas_responseTable _
  declares n known := by
    have gains := declaredSchemas_withSchemas (s := s) schemas fresh
    exact declares_iff.mpr (gains.mem_keys.mpr (.inr (declares_iff.mp known)))

variable {resolved extended : Resolved}

theorem Gives.silent (silent : ¬ doc.Mentions name) {source : SchemaRef}
    (given : doc.Gives source) : ¬ (normalRef source).RefersTo name :=
  fun refers => silent ⟨source, given, SchemaRef.refersTo_of_normalRef refers⟩

theorem resolve_uses_silent (h : doc.resolve = .ok resolved) (silent : ¬ doc.Mentions name)
    {r : SchemaRef} (uses : resolved.document.Uses r) : ¬ r.RefersTo name := by
  obtain ⟨source, _, given, run⟩ := resolve_uses_given h uses
  obtain ⟨rfl, _⟩ := checkSchema_iff.mp run
  exact Gives.silent silent given

theorem resolve_arena_silent (h : doc.resolve = .ok resolved) (silent : ¬ doc.Mentions name)
    {n : String} {r : SchemaRef} (found : resolved.arena.find? n = some r) : ¬ r.RefersTo name := by
  intro refers
  obtain ⟨_, arena, i, _, schemas, _, injected, rfl⟩ := resolve_eq_ok.mp h
  obtain ⟨t, listed, refers⟩ := Injection.addAll_inherits (P := fun r => r.RefersTo name)
    (fun _ _ _ _ h => Schema.refersTo_injectTag h) injected (Keyed.mem_of_find? found) refers
  obtain ⟨source, declared, run⟩ := (resolveSchemas_checked schemas).2 n t listed
  obtain ⟨rfl, _⟩ := checkSchema_iff.mp run
  exact Gives.silent silent (.declared declared) refers

theorem resolveSchemas_gains {small large : Arena} (run : doc.resolveSchemas = .ok small)
    (schemas : doc.componentSchemas = before ++ after) (fresh : doc.declares name = false)
    (again : (doc.withSchemas (before ++ (name, s) :: after)).resolveSchemas = .ok large) :
    Injection.Gains (name, normalRef s) ⟨small, []⟩ ⟨large, []⟩ := by
  refine ⟨?_, ?_, rfl⟩
  · show Keyed.Gains _ small.schemas large.schemas
    rw [(resolveSchemas_iff.mp run).1, (resolveSchemas_iff.mp again).1]
    exact (declaredSchemas_withSchemas schemas fresh).map
  · show name ∉ small.names
    rw [(resolveSchemas_checked run).1, ← declares_iff, fresh]
    exact Bool.false_ne_true

/-- One more schema leaves the operations as they are and the arena a part of the new one. -/
theorem resolve_withSchemas (h : doc.resolve = .ok resolved)
    (schemas : doc.componentSchemas = before ++ after) (fresh : doc.declares name = false)
    (silent : ¬ doc.Mentions name) (unmapped : s.Unmapped)
    (again : (doc.withSchemas (before ++ (name, s) :: after)).resolve = .ok extended) :
    extended.document.paths = resolved.document.paths ∧
      extended.document.info = resolved.document.info ∧
      resolved.arena.PartOf extended.arena ∧
      ∀ r, resolved.document.Uses r → resolved.arena.Suffices extended.arena r := by
  have covers : ∀ r, resolved.document.Uses r → resolved.arena.Covers r :=
    fun r uses => resolve_uses_covers h uses
  have uses_silent : ∀ r, resolved.document.Uses r → ¬ r.RefersTo name :=
    fun r uses => resolve_uses_silent h silent uses
  have arena_silent : ∀ n r, resolved.arena.find? n = some r → ¬ r.RefersTo name :=
    fun n r found => resolve_arena_silent h silent found
  have closed := resolve_closed h
  obtain ⟨paths, small, i, paths_run, arena_run, _, injected, rfl⟩ := resolve_eq_ok.mp h
  obtain ⟨paths', large, j, paths_run', arena_run', _, injected', rfl⟩ := resolve_eq_ok.mp again
  have same_paths : paths' = paths := by
    have wide := widens_withSchemas (s := s) schemas fresh
    exact Except.ok.inj (paths_run'.symm.trans (wide.resolvePaths paths paths_run))
  -- The new schema tags nothing, so both injections do the same to the schemas that they share.
  have gains : i.Gains (name, normalRef s) j := by
    have start := resolveSchemas_gains arena_run schemas fresh arena_run'
    obtain ⟨k, run, gains⟩ := start.injectDiscriminators unmapped.normal injected
    cases run.symm.trans injected'
    exact gains
  have enough : ∀ r, i.arena.Covers r → ¬ r.RefersTo name → i.arena.Suffices j.arena r := by
    intro r covers silent
    refine ⟨covers, fun n mem refers => ?_⟩
    rcases gains.schemas.mem_keys.mp mem with rfl | known
    · exact absurd refers silent
    · exact known
  refine ⟨same_paths, rfl, ⟨?_, ?_⟩, fun r uses => enough r (covers r uses) (uses_silent r uses)⟩
  · intro n r found
    exact Arena.find?_of_gains gains.schemas gains.fresh found
  · intro n r found
    exact enough r (closed n r found) (arena_silent n r found)

theorem resolves_withSchemas (h : doc.resolve = .ok resolved)
    (schemas : doc.componentSchemas = before ++ after) (fresh : doc.declares name = false)
    {t : Schema} (unmapped : SchemaRef.Unmapped (.item t)) (known : doc.Knows (.item t)) :
    ∃ extended, (doc.withSchemas (before ++ (name, .item t) :: after)).resolve = .ok extended := by
  obtain ⟨paths, small, i, paths_run, arena_run, stands, injected, _⟩ := resolve_eq_ok.mp h
  have wide := widens_withSchemas (s := .item t) schemas fresh
  have declared := declaredSchemas_withSchemas (s := .item t) schemas fresh
  have checked : (doc.withSchemas (before ++ (name, .item t) :: after)).resolveSchemas =
      .ok ⟨Keyed.mapValues normalRef
        (doc.withSchemas (before ++ (name, .item t) :: after)).declaredSchemas⟩ := by
    refine resolveSchemas_iff.mpr ⟨rfl, fun n r listed => ?_⟩
    rcases declared.mem_iff.mp listed with same | earlier
    · cases same
      exact wide.knows known
    · exact wide.knows ((resolveSchemas_iff.mp arena_run).2 n r earlier)
  have start := resolveSchemas_gains arena_run schemas fresh checked
  obtain ⟨j, injects, _⟩ := start.injectDiscriminators unmapped.normal injected
  have same_paths := wide.resolvePaths paths paths_run
  refine ⟨_, resolve_eq_ok.mpr ⟨paths, _, j, same_paths, checked, ?_, injects, rfl⟩⟩
  intro n mem
  rcases start.schemas.mem_keys.mp mem with rfl | earlier
  · have stored := start.schemas.find?_self start.fresh
    rw [normalRef] at stored
    exact ⟨_, .item stored⟩
  · obtain ⟨target, chain⟩ := stands n earlier
    exact ⟨target, chain.mono fun _ _ => Arena.find?_of_gains start.schemas start.fresh⟩

end Document

end TypedClients
