import TypedClients.Proofs.Pruning
import TypedClients.Proofs.WellFormed

namespace TypedClients

theorem flatMap_perm_of_single {α β : Type} {g : α → List β} {as bs : List α} (perm : bs.Perm as)
    (single : ∀ a ∈ as, ∀ b ∈ as, g a ≠ [] → g b ≠ [] → a = b) :
    bs.flatMap g = as.flatMap g := by
  induction perm with
  | nil => rfl
  | cons a _ ih =>
    rw [List.flatMap_cons, List.flatMap_cons]
    rw [ih fun b later c also => single b (.tail _ later) c (.tail _ also)]
  | swap a b rest =>
    simp only [List.flatMap_cons]
    by_cases first : g a = []
    · simp [first]
    · by_cases second : g b = []
      · simp [second]
      · have same := single a (by simp) b (by simp) first second
        rw [same]
  | trans _ perm first second =>
    rw [first fun a left b right => single a (perm.mem_iff.mp left) b (perm.mem_iff.mp right)]
    exact second single

namespace Arena

/-- The same schemas in some order, and for each of them the same mapping entries in one order. -/
structure Rearranges (arena other : Arena) : Prop where
  schemas : other.schemas.Perm arena.schemas
  distinct : (Keyed.keys arena.schemas).Nodup
  entries : ∀ t, other.entriesFor t = arena.entriesFor t

namespace Rearranges

variable {arena other : Arena} (h : arena.Rearranges other)
include h

theorem find? (n : String) : other.find? n = arena.find? n :=
  Keyed.find?_perm h.distinct h.schemas n

theorem mem_names {n : String} : n ∈ other.names ↔ n ∈ arena.names :=
  (h.schemas.map Prod.fst).mem_iff

theorem respelled : arena.respelled.Rearranges other.respelled where
  schemas := h.schemas.map _
  distinct := by
    show arena.respelled.names.Nodup
    rw [respelled_names]
    exact h.distinct
  entries t := by
    rw [respelled_entriesFor, respelled_entriesFor, h.entries]

theorem injectDiscriminators {i : Injection} (run : arena.injectDiscriminators = .ok i) :
    ∃ j, other.injectDiscriminators = .ok j ∧ ∀ n, j.arena.find? n = i.arena.find? n := by
  have entries : ∀ e, e ∈ other.mappingEntries ↔ e ∈ arena.mappingEntries :=
    fun e => (h.schemas.flatMap_right _).mem_iff
  have targets := injectDiscriminators_total.mp ⟨i, run⟩
  obtain ⟨j, again⟩ : ∃ j, other.injectDiscriminators = .ok j := by
    rw [injectDiscriminators_total]
    intro e listed
    obtain ⟨t, given⟩ := targets e ((entries e).mp listed)
    exact ⟨t, (designates_of_find? h.find?).mpr given⟩
  refine ⟨j, again, fun n => ?_⟩
  rw [injectDiscriminators_find? again, injectDiscriminators_find? run, h.entries, h.find?]

end Rearranges

variable {small large : Arena}

theorem suffices_of_find? (same : ∀ n, large.find? n = small.find? n) {r : SchemaRef}
    (covers : small.Covers r) : small.Suffices large r := by
  refine ⟨covers, fun n mem _ => ?_⟩
  obtain ⟨s, found⟩ := Keyed.find?_of_mem_keys mem
  exact Keyed.mem_keys_of_find? ((same n).symm.trans found)

theorem partOf_of_find? (same : ∀ n, large.find? n = small.find? n) (closed : small.Closed) :
    small.PartOf large where
  find n _ found := (same n).trans found
  complete n r found := suffices_of_find? same (closed n r found)

end Arena

namespace Document

open Outcome

variable {doc other : Document}

/-- The documents differ in the order of their component schemas alone. -/
structure Reorders (doc other : Document) : Prop where
  schemas : other.componentSchemas.Perm doc.componentSchemas
  rest : other.withSchemas [] = doc.withSchemas []

/-- A discriminator in the component schema `owner` selects the schema stored under a name. -/
def Selects (doc : Document) (owner t : String) : Prop :=
  ∃ s, (owner, s) ∈ doc.componentSchemas ∧
    ∃ e ∈ s.inlined.flatMap (Schema.mappingEntries owner), doc.declaredArena.Designates e t

def Exclusive (doc : Document) : Prop :=
  ∀ t owner another, doc.Selects owner t → doc.Selects another t → owner = another

namespace Reorders

theorem symm (h : doc.Reorders other) : other.Reorders doc := ⟨h.schemas.symm, h.rest.symm⟩

variable (h : doc.Reorders other)
include h

theorem paths : other.paths = doc.paths := (congrArg Document.paths h.rest :)

theorem info : other.info = doc.info := (congrArg Document.info h.rest :)

theorem definitions : other.definitions = doc.definitions :=
  (congrArg Document.definitions h.rest :)

theorem declares (n : String) : other.declares n = doc.declares n := by
  have schemas :
      Keyed.contains n other.componentSchemas = Keyed.contains n doc.componentSchemas := by
    rw [Bool.eq_iff_iff, Keyed.contains_iff_mem, Keyed.contains_iff_mem]
    simp only [h.schemas.mem_iff]
  unfold Document.declares
  rw [h.definitions, schemas]

theorem widens : doc.Widens other where
  paths := h.paths
  parameters := by
    rw [← other.withSchemas_parameterTable [], h.rest, doc.withSchemas_parameterTable]
  requestBodies := by
    rw [← other.withSchemas_requestBodyTable [], h.rest, doc.withSchemas_requestBodyTable]
  responses := by
    rw [← other.withSchemas_responseTable [], h.rest, doc.withSchemas_responseTable]
  declares n known := (h.declares n).trans known

theorem distinct (given : doc.Distinct) : other.Distinct where
  components := (h.schemas.map Prod.fst).nodup_iff.mpr given.components
  definitions := by
    rw [h.definitions]
    exact given.definitions

end Reorders

namespace Reorders

variable (h : doc.Reorders other) (distinct : doc.Distinct)
include h distinct

theorem declaredSchemas : ∃ fixed before after, doc.declaredSchemas = fixed ++ before ∧
    other.declaredSchemas = fixed ++ after ∧ after.Perm before ∧
      ∀ p ∈ before, p ∈ doc.componentSchemas := by
  refine ⟨_, _, _, distinct.declaredSchemas_eq, ?_, h.schemas.filter _,
    fun p mem => (List.mem_filter.mp mem).1⟩
  rw [(h.distinct distinct).declaredSchemas_eq, h.definitions]
  congr 1
  apply List.map_congr_left
  intro p _
  rw [Keyed.find?_perm distinct.components h.schemas]

theorem declaredSchemas_perm : other.declaredSchemas.Perm doc.declaredSchemas := by
  obtain ⟨fixed, before, after, old, new, perm, _⟩ := h.declaredSchemas distinct
  rw [old, new]
  exact perm.append_left fixed

theorem designates {e : MappingEntry} {t : String} :
    other.declaredArena.Designates e t ↔ doc.declaredArena.Designates e t :=
  Arena.designates_of_find? (Keyed.find?_perm (Keyed.nodup_keys_insertAll distinct.definitions)
    (h.declaredSchemas_perm distinct))

theorem selects {owner t : String} (given : doc.Selects owner t) : other.Selects owner t := by
  obtain ⟨s, listed, e, entry, designated⟩ := given
  have same : other.declaredArena.Designates e t := (h.designates distinct).mpr designated
  exact ⟨s, h.schemas.mem_iff.mpr listed, e, entry, same⟩

theorem rearranges (single : doc.Exclusive) : doc.declaredArena.Rearranges other.declaredArena := by
  refine ⟨h.declaredSchemas_perm distinct, Keyed.nodup_keys_insertAll distinct.definitions,
    fun t => ?_⟩
  obtain ⟨fixed, before, after, old, new, perm, components⟩ := h.declaredSchemas distinct
  -- What a named schema contributes to the entries for `t`.
  let given (p : String × SchemaRef) : List MappingEntry :=
    (p.2.inlined.flatMap (Schema.mappingEntries p.1)).filter fun e =>
      doc.declaredArena.Designates e t
  have selects : ∀ p ∈ before, given p ≠ [] → doc.Selects p.1 t := by
    intro p mem some_entry
    obtain ⟨e, listed⟩ := List.exists_mem_of_ne_nil _ some_entry
    obtain ⟨entry, designated⟩ := List.mem_filter.mp listed
    exact ⟨p.2, components p mem, e, entry, by simpa using designated⟩
  have movable : after.flatMap given = before.flatMap given := by
    apply flatMap_perm_of_single perm
    intro p left q right some_entry another
    have owner := single t p.1 q.1 (selects p left some_entry) (selects q right another)
    exact Keyed.eq_of_key distinct.components (components p left) (components q right) owner
  have entries : other.declaredArena.entriesFor t = other.declaredSchemas.flatMap given := by
    rw [Arena.entriesFor_eq]
    simp only [h.designates distinct]
    rfl
  calc other.declaredArena.entriesFor t
      = fixed.flatMap given ++ after.flatMap given := by rw [entries, new, List.flatMap_append]
    _ = doc.declaredSchemas.flatMap given := by rw [movable, old, List.flatMap_append]
    _ = doc.declaredArena.entriesFor t := (doc.declaredArena.entriesFor_eq t).symm

theorem resolve (single : doc.Exclusive) {resolved : Resolved} (run : doc.resolve = .ok resolved) :
    ∃ again, other.resolve = .ok again ∧ again.document.paths = resolved.document.paths ∧
      again.document.info = resolved.document.info ∧
      ∀ n, again.arena.find? n = resolved.arena.find? n := by
  obtain ⟨paths, arena, i, paths_run, arena_run, stands, injected, rfl⟩ := resolve_eq_ok.mp run
  obtain ⟨rfl, known⟩ := resolveSchemas_iff_respelled.mp arena_run
  have rearranged := h.rearranges distinct single
  have other_run : other.resolveSchemas = .ok other.declaredArena.respelled := by
    refine resolveSchemas_iff_respelled.mpr ⟨rfl, fun n s listed => ?_⟩
    exact h.widens.knows (known n s (rearranged.schemas.mem_iff.mp listed))
  obtain ⟨j, again, same⟩ := rearranged.respelled.injectDiscriminators injected
  have other_stands : ∀ n ∈ other.declaredArena.respelled.names,
      ∃ t, other.declaredArena.respelled.StandsFor n t := by
    intro n mem
    obtain ⟨t, chain⟩ := stands n (rearranged.respelled.mem_names.mp mem)
    exact ⟨t, (Arena.standsFor_of_find? rearranged.respelled.find?).mpr chain⟩
  have other_paths := h.widens.resolvePaths paths paths_run
  exact ⟨_, resolve_eq_ok.mpr ⟨paths, _, j, other_paths, other_run, other_stands, again, rfl⟩,
    rfl, h.info, same⟩

end Reorders

end Document

namespace CommandLine

/-- A run carries over to a document that is resolved to the same operations over an arena with all
that they refer to. -/
theorem registry_run_carries {doc other : Document} {resolved again : Resolved} {target : Target}
    {report : Report} (resolves : doc.resolve = .ok resolved) (alike : other.resolve = .ok again)
    (paths : again.document.paths = resolved.document.paths)
    (info : again.document.info = resolved.document.info)
    (part : resolved.arena.PartOf again.arena)
    (enough : ∀ r, resolved.document.Uses r → resolved.arena.Suffices again.arena r)
    (h : registry.run doc target = .ok report) : registry.run other target = .ok report := by
  obtain ⟨r, starts, rfl, rfl⟩ := Run.run_eq_ok.mp h
  cases resolves.symm.trans starts.resolved
  let carried : Run := { r with resolved := again }
  have endpoints : buildEndpoints again r.target = .ok r.endpoints := by
    rw [buildEndpoints_eq part paths (fun s uses => (enough s uses).covers), starts.endpoints]
  have title : carried.title = r.title := congrArg Info.title info
  have fileStem : carried.fileStem = r.fileStem := congrArg r.target.fileStem title
  have units : carried.units = r.units := by
    unfold Run.units
    rw [title, fileStem]
  have roots : ∀ e ∈ r.endpoints, ∀ s ∈ e.schemaRoots,
      r.resolved.arena.Suffices again.arena s := by
    intro e mem s root
    obtain ⟨_, _, _, uses⟩ := buildEndpoints_builtFrom starts.endpoints mem
    exact enough s (uses s root)
  have same : carried.report = r.report := by
    unfold Run.report
    rw [units, fileStem]
    exact generate_part (registry_backend_local starts.backend)
      (registry_emitter_local starts.emitter) part info roots r.target r.units r.fileStem
  refine Run.run_eq_ok.mpr ⟨carried, ⟨starts.backend, starts.emitter, alike, endpoints, ?_⟩, rfl,
    same.symm⟩
  rw [units]
  exact starts.distinct

theorem registry_run_refines {doc other : Document} (reorders : doc.Reorders other)
    (distinct : doc.Distinct) (single : doc.Exclusive) {target : Target} {report : Report}
    (h : registry.run doc target = .ok report) : registry.run other target = .ok report := by
  obtain ⟨r, starts, _⟩ := Run.run_eq_ok.mp h
  obtain ⟨again, alike, paths, info, same⟩ := reorders.resolve distinct single starts.resolved
  have part := Arena.partOf_of_find? same (Document.resolve_closed starts.resolved)
  refine registry_run_carries starts.resolved alike paths info part (fun s uses => ?_) h
  exact Arena.suffices_of_find? same (Document.resolve_uses_covers starts.resolved uses)

/-- The order of the component schemas does not matter to a run if no schema is selected by the
discriminators of two of them. Documents that are read declare every name once. -/
theorem registry_run_reordered {doc other : Document} (reorders : doc.Reorders other)
    (distinct : doc.Distinct) (single : doc.Exclusive) (target : Target) (report : Report) :
    (registry.run other target = .ok report ↔ registry.run doc target = .ok report) ∧
      ∀ source : Document, source.Read → source.Distinct := by
  have back := reorders.distinct distinct
  refine ⟨⟨?_, registry_run_refines reorders distinct single⟩, fun _ read => read.distinct⟩
  apply registry_run_refines reorders.symm back
  intro t owner another first second
  exact single t owner another (reorders.symm.selects back first)
    (reorders.symm.selects back second)

end CommandLine

theorem Schema.owner_of_mappingEntries {owner : String} {e : MappingEntry} (s : Schema)
    (h : e ∈ s.mappingEntries owner) : e.owner = owner := by
  unfold mappingEntries at h
  split at h
  · obtain ⟨_, _, rfl⟩ := List.mem_map.mp h
    rfl
  · cases h

def zooFamily : Schema := { zooModel with discriminator := some ⟨"kind", [("pet", "Pet")]⟩ }

def zooKinds : Document := zoo.withSchemas [("Model", .item zooFamily), ("Pet", .item zooPet)]

theorem zooFamily_flat : zooFamily.Flat := fun _ held =>
  ⟨_, zooModel_holds.mp (Schema.holds_keywords.mp held)⟩

theorem zooKinds_declared :
    zooKinds.declaredSchemas = [("Model", .item zooFamily), ("Pet", .item zooPet)] := rfl

theorem zooKinds_entries : zooKinds.declaredArena.mappingEntries =
    [⟨"Model", "kind", "pet", "Pet"⟩] := by
  have family : zooFamily.children = [(.property "pet", .ref "#/components/schemas/Pet")] := rfl
  have pet : zooPet.children = [(.property "name", .item { type := some (.single .string) })] := rfl
  have name : Schema.children { type := some (.single .string) } = [] := rfl
  unfold Arena.mappingEntries Document.declaredArena
  rw [zooKinds_declared]
  simp only [List.flatMap_cons, List.flatMap_nil, SchemaRef.inlined_item, family, pet, name,
    SchemaRef.inlined]
  rfl

theorem zooKinds_widens : zoo.Widens zooKinds where
  paths := rfl
  parameters := rfl
  requestBodies := rfl
  responses := rfl
  declares n known := by
    have keys : Keyed.keys zooKinds.declaredSchemas = Keyed.keys zoo.declaredSchemas := rfl
    rw [Document.declares_iff] at known ⊢
    rwa [keys]

theorem zooKinds_designates :
    zooKinds.declaredArena.Designates ⟨"Model", "kind", "pet", "Pet"⟩ "Pet" :=
  ⟨"Pet", .inr ⟨by decide, rfl⟩, .item (s := zooPet) rfl⟩

theorem zooKinds_known {n : String} {s : SchemaRef} (listed : (n, s) ∈ zooKinds.declaredSchemas) :
    zooKinds.Knows s := by
  obtain ⟨_, known⟩ := Document.resolveSchemas_iff.mp Document.zoo_schemas
  rw [zooKinds_declared] at listed
  apply zooKinds_widens.knows
  rcases List.mem_cons.mp listed with same | listed
  · cases same
    intro path mentioned
    have held := Schema.holds_keywords.mp (zooFamily_flat.mentions_iff.mp mentioned)
    exact known "Model" (.item zooModel) (.head _) path (zooModel_flat.mentions_iff.mpr held)
  · cases List.mem_singleton.mp listed
    exact known "Pet" (.item zooPet) (.tail _ (.head _))

theorem zooKinds_resolve : ∃ arena, zooKinds.resolve = .ok ⟨zooResolved.document, arena⟩ := by
  have schemas : zooKinds.resolveSchemas = .ok zooKinds.declaredArena.respelled :=
    Document.resolveSchemas_iff_respelled.mpr ⟨rfl, fun _ _ => zooKinds_known⟩
  have stands : ∀ n ∈ zooKinds.declaredArena.respelled.names,
      ∃ t, zooKinds.declaredArena.respelled.StandsFor n t := by
    intro n mem
    have names : zooKinds.declaredArena.names = ["Model", "Pet"] := rfl
    rw [Arena.respelled_names, names] at mem
    simp only [List.mem_cons, List.not_mem_nil, or_false] at mem
    refine ⟨n, Arena.respelled_standsFor.mpr ?_⟩
    rcases mem with rfl | rfl
    · exact .item (s := zooFamily) rfl
    · exact .item (s := zooPet) rfl
  obtain ⟨i, injected⟩ : ∃ i, zooKinds.declaredArena.respelled.injectDiscriminators = .ok i := by
    rw [Arena.injectDiscriminators_total, Arena.respelled_mappingEntries, zooKinds_entries]
    intro e listed
    rw [List.mem_singleton.mp listed]
    exact ⟨"Pet", Arena.respelled_designates.mpr zooKinds_designates⟩
  have paths := zooKinds_widens.resolvePaths _ Document.zoo_paths
  exact ⟨i.arena, Document.resolve_eq_ok.mpr ⟨_, _, i, paths, schemas, stands, injected, rfl⟩⟩

theorem zooKinds_endpoints (arena : Arena) :
    buildEndpoints ⟨zooResolved.document, arena⟩ zooTarget = buildEndpoints zooResolved zooTarget := by
  have bare : mergeParameters [] zooOperation.parameters = [] := rfl
  have build : ∀ other, Endpoint.build arena zooTarget "/m" [] .get zooOperation =
      Endpoint.build other zooTarget "/m" [] .get zooOperation := by
    intro other
    unfold Endpoint.build
    simp only [bare, List.filter_nil, List.map_nil]
  have selected : selectedOperations zooTarget zooResolved.document.paths =
      [("/m", { operations := [(.get, zooOperation)] }, .get, zooOperation)] := rfl
  unfold buildEndpoints
  dsimp only
  rw [selected, List.mapM_cons, List.mapM_cons, build zooResolved.arena, List.mapM_nil,
    List.mapM_nil]

theorem zooKinds_run : ∃ report, CommandLine.registry.run zooKinds zooTarget = .ok report := by
  obtain ⟨arena, resolved⟩ := zooKinds_resolve
  obtain ⟨e, built, _, tags, _⟩ := zoo_endpoints
  let r : Run := { zooRun e with resolved := ⟨zooResolved.document, arena⟩ }
  have units : r.units = (zooRun e).units := rfl
  refine ⟨r.report, Run.run_eq_ok.mpr ⟨r, ⟨rfl, rfl, resolved, ?_, ?_⟩, rfl, rfl⟩⟩
  · exact (zooKinds_endpoints arena).trans built
  · rw [units]
    exact (zooRun_starts built tags).distinct

namespace CommandLine

theorem registry_run_reordered_zooKinds :
    ∃ report, registry.run zooKinds zooTarget = .ok report ∧ registry.run
      (zoo.withSchemas [("Pet", .item zooPet), ("Model", .item zooFamily)]) zooTarget =
        .ok report := by
  obtain ⟨report, run⟩ := zooKinds_run
  have reorders : zooKinds.Reorders
      (zoo.withSchemas [("Pet", .item zooPet), ("Model", .item zooFamily)]) :=
    ⟨.swap _ _ _, rfl⟩
  have distinct : zooKinds.Distinct := by
    constructor
    · show ["Model", "Pet"].Nodup
      decide
    · exact .nil
  have single : zooKinds.Exclusive := by
    have family : ∀ t owner, zooKinds.Selects owner t → owner = "Model" := by
      intro t owner selects
      obtain ⟨s, listed, e, entry, _⟩ := selects
      have mapped : e ∈ zooKinds.declaredArena.mappingEntries :=
        List.mem_flatMap.mpr ⟨(owner, s), listed, entry⟩
      obtain ⟨nested, _, own⟩ := List.mem_flatMap.mp entry
      rw [zooKinds_entries, List.mem_singleton] at mapped
      rw [← nested.owner_of_mappingEntries own, mapped]
    intro t owner another first second
    rw [family t owner first, family t another second]
  obtain ⟨same, _⟩ := registry_run_reordered reorders distinct single zooTarget report
  exact ⟨report, run, same.mpr run⟩

end CommandLine

end TypedClients
