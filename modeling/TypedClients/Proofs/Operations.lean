import TypedClients.Proofs.Lines
import TypedClients.Proofs.Pages
import TypedClients.Proofs.Units
import TypedClients.Proofs.WellFormed

namespace TypedClients

open Outcome

/-- The operations that a document declares, each with its tags. -/
def Document.declared (doc : Document) : List (String × Verb × List String) :=
  doc.paths.flatMap fun p => p.2.operations.map fun o => (p.1, o.1, o.2.tags)

def Endpoint.place (e : Endpoint) : String × Verb × List String := (e.route, e.verb, e.tags)

namespace Document

variable {doc : Document} {resolved : Resolved}

theorem resolveOperation_tags {location : String} {op result : Operation}
    (h : doc.resolveOperation location op = .ok result) : result.tags = op.tags := by
  unfold resolveOperation at h
  simp only [bind_eq_ok, pure_eq_ok] at h
  obtain ⟨_, _, _, _, _, _, rfl⟩ := h
  rfl

theorem resolvePathItem_operations {location : String} {item result : PathItem}
    (h : doc.resolvePathItem location item = .ok result) :
    (result.operations.map fun o => (o.1, o.2.tags)) =
      item.operations.map fun o => (o.1, o.2.tags) := by
  unfold resolvePathItem at h
  simp only [bind_eq_ok, pure_eq_ok] at h
  obtain ⟨_, _, operations, run, rfl⟩ := h
  rw [← List.forall₂_eq_eq_eq, List.forall₂_map_left_iff, List.forall₂_map_right_iff]
  refine (mapM_forall₂ run).flip.imp fun resolved original step => ?_
  obtain ⟨op, run, same⟩ := bind_eq_ok.mp step
  rw [pure_eq_ok] at same
  rw [same, resolveOperation_tags run]

/-- Resolving a document leaves its operations where they are. -/
theorem resolve_declared (h : doc.resolve = .ok resolved) :
    resolved.document.declared = doc.declared := by
  obtain ⟨paths, _, _, run, _, _, _, rfl⟩ := resolve_eq_ok.mp h
  have pairs := mapM_forall₂ run
  show (paths.flatMap fun p => p.2.operations.map fun o => (p.1, o.1, o.2.tags)) = _
  unfold declared
  generalize doc.paths = sources at pairs
  clear run h
  induction pairs with
  | nil => rfl
  | @cons original result _ _ step _ ih =>
    obtain ⟨item, run, same⟩ := bind_eq_ok.mp step
    rw [pure_eq_ok] at same
    have operations := congrArg (List.map fun o => (original.1, o)) (resolvePathItem_operations run)
    rw [List.map_map, List.map_map] at operations
    rw [List.flatMap_cons, List.flatMap_cons, ih, same]
    exact congrArg (· ++ _) operations

theorem WellFormed.declared_sublist (wf : doc.WellFormed) :
    (doc.declared.map fun o => (o.1, o.2.1)).Sublist
      (doc.paths.flatMap fun p => Verb.all.map fun verb => (p.1, verb)) := by
  obtain ⟨_, verbs⟩ := wf
  unfold declared
  generalize doc.paths = paths at verbs
  induction paths with
  | nil => exact .slnil
  | cons p rest ih =>
    rw [List.flatMap_cons, List.flatMap_cons, List.map_append]
    apply List.Sublist.append
    · have own := (verbs p.1 p.2 List.mem_cons_self).map fun verb => (p.1, verb)
      rw [List.map_map] at own ⊢
      exact own
    · exact ih fun route item mem => verbs route item (List.mem_cons_of_mem _ mem)

theorem WellFormed.nodup (wf : doc.WellFormed) :
    (doc.paths.flatMap fun p => Verb.all.map fun verb => (p.1, verb)).Nodup := by
  have routes := wf.routes
  rw [List.nodup_flatMap]
  constructor
  · intro p _
    exact List.Nodup.map (fun a b same => congrArg Prod.snd same) (by decide)
  · refine (List.pairwise_map.mp routes).imp fun {p q} different => ?_
    intro pair first second
    obtain ⟨_, _, rfl⟩ := List.mem_map.mp first
    obtain ⟨_, _, same⟩ := List.mem_map.mp second
    exact different (congrArg Prod.fst same).symm

end Document

theorem Endpoint.build_place {arena : Arena} {target : Target} {route : String}
    {shared : List (Referenced Parameter)} {verb : Verb} {op : Operation} {e : Endpoint}
    (h : Endpoint.build arena target route shared verb op = .ok e) :
    e.place = (route, verb, op.tags) := by
  unfold Endpoint.build at h
  simp only [bind_eq_ok, pure_eq_ok] at h
  obtain ⟨_, _, rfl⟩ := h
  rfl

theorem Endpoint.build_total {op : Operation} (inlined : op.Inlined) (arena : Arena)
    (target : Target) (route : String) (shared : List (Referenced Parameter)) (verb : Verb) :
    ∃ e, Endpoint.build arena target route shared verb op = .ok e := by
  have body : ∀ location, ∃ b, buildBody location op.requestBody = .ok b := by
    intro location
    unfold buildBody
    split
    · exact ⟨_, rfl⟩
    · rename_i path given
      obtain ⟨_, same⟩ := inlined.requestBody _ given
      cases same
    · exact ⟨_, rfl⟩
  obtain ⟨b, run⟩ := body (verb.upper ++ " " ++ route)
  unfold Endpoint.build
  simp only [run]
  exact ⟨_, rfl⟩

def Target.unfiltered (t : Target) : Target := { t with filters := {} }

theorem Filters.selects_default (tags : List String) : ({} : Filters).selects tags = true := by
  unfold Filters.selects
  simp

theorem selectedOperations_eq (target : Target) (paths : List (String × PathItem)) :
    selectedOperations target paths =
      (selectedOperations target.unfiltered paths).filter
        fun o => target.filters.selects o.2.2.2.tags := by
  unfold selectedOperations
  rw [List.filter_flatMap]
  apply List.flatMap_congr
  intro p _
  have all : ∀ tags, target.unfiltered.filters.selects tags = true := Filters.selects_default
  simp [all, List.filter_map, Function.comp_def]

/-- A filtered target builds those endpoints of the unfiltered one that it selects. -/
theorem buildEndpoints_filter {resolved : Resolved} {target : Target} {all : List Endpoint}
    (h : buildEndpoints resolved target.unfiltered = .ok all) :
    buildEndpoints resolved target =
      .ok (all.filter fun e => target.filters.selects e.tags) := by
  unfold buildEndpoints at h ⊢
  rw [selectedOperations_eq]
  apply mapM_of_forall₂
  refine List.rel_filter ?_ (mapM_forall₂ h)
  intro o e built
  have tags : e.tags = o.2.2.2.tags := congrArg (fun x => x.2.2) (Endpoint.build_place built)
  show target.filters.selects o.2.2.2.tags = true ↔ target.filters.selects e.tags = true
  rw [tags]

theorem buildEndpoints_place {resolved : Resolved} {target : Target} {all : List Endpoint}
    (h : buildEndpoints resolved target.unfiltered = .ok all) :
    all.map Endpoint.place = resolved.document.declared := by
  have places : all.map Endpoint.place =
      (selectedOperations target.unfiltered resolved.document.paths).map
        fun o => (o.1, o.2.2.1, o.2.2.2.tags) := by
    rw [← List.forall₂_eq_eq_eq, List.forall₂_map_left_iff, List.forall₂_map_right_iff]
    exact (mapM_forall₂ h).flip.imp fun e o built => Endpoint.build_place built
  rw [places]
  unfold selectedOperations Document.declared
  rw [List.map_flatMap]
  apply List.flatMap_congr
  intro p _
  have all : ∀ tags, target.unfiltered.filters.selects tags = true := Filters.selects_default
  simp [all, Function.comp_def]

theorem buildEndpoints_total {doc : Document} {resolved : Resolved}
    (h : doc.resolve = .ok resolved) (target : Target) :
    ∃ endpoints, buildEndpoints resolved target = .ok endpoints := by
  apply mapM_total
  intro o selected
  obtain ⟨listed, own⟩ := mem_selectedOperations selected
  have inlined := (Document.resolve_paths_checked h listed).1
  exact Endpoint.build_total (inlined.operations _ _ own) _ _ _ _ _

/-- The file holds the banner, the lines of the imports and the sections, with an empty line between
them. A section is cut off behind its last letter, and one without letters is left out. -/
def GeneratedFile.ConsistsOf (f : GeneratedFile) (banner : String)
    (imports sections : List String) : Prop :=
  ∃ blocks, List.Forall₂ Text.Trims sections blocks ∧
    f.content = "\n\n".intercalate (banner ::
      (if imports = [] then [] else ["\n".intercalate imports]) ++
        blocks.filter (fun block => block ≠ "")) ++ "\n"

theorem writePage_consists (path banner : String) (imports sections : List String) :
    GeneratedFile.ConsistsOf ⟨path, writePage banner imports sections⟩ banner imports sections := by
  refine ⟨sections.map Text.trimEndBlanks, ?_, ?_⟩
  · rw [List.forall₂_map_right_iff, List.forall₂_same]
    exact fun s _ => Text.trims_trimEndBlanks s
  · have filled : ∀ s : String, (s != "") = decide (s ≠ "") := by
      intro s
      rw [decide_not]
      rfl
    unfold writePage Text.join
    simp only [List.isEmpty_iff, filled]

namespace Run

variable {r : Run} {u : OutputUnit}

/-- What a unit's file takes in before its own texts: the declarations of the model file with the
same path but for case, if there is one. -/
def Embeds (r : Run) (u : OutputUnit) (bodies : List String) : Prop :=
  (∃ f ∈ r.state.modelFiles, Text.lower u.path = Text.lower f.path ∧ bodies = [f.body]) ∨
    (∀ f ∈ r.state.modelFiles, Text.lower u.path ≠ Text.lower f.path) ∧ bodies = []

theorem embeds_embedded (r : Run) (u : OutputUnit) :
    r.Embeds u ((r.state.embedded? u).map ModelFile.body).toList := by
  cases taken : r.state.embedded? u with
  | none =>
    right
    refine ⟨fun f file same => ?_, rfl⟩
    cases taken.symm.trans (embedded_iff.mpr ⟨file, same⟩)
  | some f =>
    left
    obtain ⟨file, same⟩ := embedded_iff.mp taken
    exact ⟨f, file, same, rfl⟩

/-- The file of a unit holds the text of each of its operations once, in their order. -/
theorem clientPage_consists (r : Run) (c : Rendering) : ∃ bodies, r.Embeds c.unit bodies ∧
    (r.clientPage c).ConsistsOf r.state.banner
      (((Page.client c).imports r).map Dependency.write)
      (bodies ++ c.header :: c.texts.map (·.implementation) ++ [c.footer]) := by
  refine ⟨_, r.embeds_embedded c.unit, ?_⟩
  exact writePage_consists _ _ _ _

end Run

/-- No selected operation is lost or generated twice. A target has one endpoint for each declared
operation that it selects, in document order. Its units share the endpoints out among them, and a
run without errors writes one file for each unit, which consists of the texts that the backend has
made of the unit's endpoints, each once and in their order, between a header and a footer. -/
theorem Registry.run_operations {doc : Document} (wf : doc.WellFormed) {resolved : Resolved}
    (h : doc.resolve = .ok resolved) (registry : Registry) (target : Target) :
    (∀ source : Document, source.Read → source.WellFormed) ∧
    ∃ endpoints all, buildEndpoints resolved target = .ok endpoints ∧
      buildEndpoints resolved target.unfiltered = .ok all ∧
      endpoints = all.filter (fun e => target.filters.selects e.tags) ∧
      endpoints.map Endpoint.place =
        doc.declared.filter (fun o => target.filters.selects o.2.2) ∧
      (endpoints.map fun e => (e.route, e.verb)).Sublist
        (doc.paths.flatMap fun p => Verb.all.map fun verb => (p.1, verb)) ∧
      (endpoints.map fun e => (e.route, e.verb)).Nodup ∧
      (∀ mode title fileStem,
        Allotment endpoints.length (planUnits endpoints mode title fileStem)) ∧
      ∀ report, registry.run doc target = .ok report → report.errors = [] →
        ∃ (r : Run) (renderings : List Rendering),
          r.Starts registry doc ∧ r.target = target ∧ r.endpoints = endpoints ∧
          (r.units.flatMap fun u => u.endpoints endpoints).Perm endpoints ∧
          List.Forall₂ r.Renders r.units renderings ∧
          report.files = r.state.modelPages ++ renderings.map r.clientPage ∧
          ∀ c ∈ renderings, (r.clientPage c).path = c.unit.path ∧
            ∃ bodies, r.Embeds c.unit bodies ∧
              (r.clientPage c).ConsistsOf r.state.banner
                (((Page.client c).imports r).map Dependency.write)
                (bodies ++ c.header :: c.texts.map (·.implementation) ++ [c.footer]) := by
  obtain ⟨all, unfiltered⟩ := buildEndpoints_total h target.unfiltered
  let endpoints := all.filter fun e => target.filters.selects e.tags
  have built : buildEndpoints resolved target = .ok endpoints := buildEndpoints_filter unfiltered
  have places : endpoints.map Endpoint.place =
      doc.declared.filter fun o => target.filters.selects o.2.2 := by
    rw [← Document.resolve_declared h, ← buildEndpoints_place unfiltered, List.filter_map]
    rfl
  have order : (endpoints.map fun e => (e.route, e.verb)).Sublist
      (doc.paths.flatMap fun p => Verb.all.map fun verb => (p.1, verb)) := by
    have spots : (endpoints.map fun e => (e.route, e.verb)) =
        (endpoints.map Endpoint.place).map fun o => (o.1, o.2.1) := by
      rw [List.map_map]
      rfl
    rw [spots, places]
    exact (List.filter_sublist.map _).trans wf.declared_sublist
  have named : ∀ e ∈ endpoints, ∃ source, e.name = Name.ofText source := by
    intro e mem
    obtain ⟨_, _, from_, _⟩ := buildEndpoints_builtFrom built mem
    exact from_.name
  refine ⟨fun _ read => read.wellFormed, endpoints, all, built, unfiltered, rfl, places, order,
    order.nodup wf.nodup, planUnits_allotment named, fun report run clean => ?_⟩
  obtain ⟨r, starts, rfl, rfl⟩ := Run.run_eq_ok.mp run
  obtain ⟨_, renderings, renders, files⟩ := Run.report_clean clean
  have resolution : r.resolved = resolved := Except.ok.inj (starts.resolved.symm.trans h)
  have same : r.endpoints = endpoints := by
    have again := starts.endpoints
    rw [resolution, built] at again
    exact (Except.ok.inj again).symm
  have units : r.units = planUnits endpoints r.target.mode r.title r.fileStem := by
    rw [← same]
    rfl
  have shared : (r.units.flatMap fun u => u.endpoints endpoints).Perm endpoints := by
    rw [units]
    exact (planUnits_allotment named _ _ _).endpoints_perm
  refine ⟨r, renderings, starts, rfl, same, shared, renders, files, fun c _ => ⟨rfl, ?_⟩⟩
  exact r.clientPage_consists c

def farmOperation (id tag : String) : Operation := { operationId := some id, tags := [tag] }

/-- Two tags differ in case only, and one operation is not for clients. -/
def farm : Document where
  openapi := "3.0.3"
  info := { title := "Farm", version := "1" }
  paths := [("/orders", { operations := [(.get, farmOperation "listOrders" "Orders")] }),
    ("/pets", { operations := [(.get, farmOperation "listPets" "Pets"),
      (.post, farmOperation "addPet" "pets"), (.delete, farmOperation "purgePets" "internal")] })]

def farmTarget : Target := { mode := .tags, filters := { excludeTags := ["internal"] } }

def farmRun (endpoints : List Endpoint) : Run :=
  ⟨Client.fetch, TypeScript.emitter, ⟨farm, ⟨[]⟩⟩, farmTarget, endpoints⟩

def farmUnits : List OutputUnit := [⟨"Orders", "orders.ts", [0]⟩, ⟨"Pets", "pets.ts", [1, 2]⟩]

theorem farm_endpoints : ∃ e f g, buildEndpoints ⟨farm, ⟨[]⟩⟩ farmTarget = .ok [e, f, g] ∧
    e.tags = ["Orders"] ∧ f.tags = ["Pets"] ∧ g.tags = ["pets"] ∧
    f.name.camel = "listPets" ∧ g.name.camel = "addPet" :=
  ⟨_, _, _, rfl, rfl, rfl, rfl, by decide, by decide⟩

theorem farmRun_units {e f g : Endpoint} (orders : e.tags = ["Orders"]) (pets : f.tags = ["Pets"])
    (lower : g.tags = ["pets"]) : (farmRun [e, f, g]).units = farmUnits := by
  have first : e.firstTag = "Orders" := by simp [Endpoint.firstTag, orders]
  have second : f.firstTag = "Pets" := by simp [Endpoint.firstTag, pets]
  have third : g.firstTag = "pets" := by simp [Endpoint.firstTag, lower]
  have orders_stem : stem "Orders" = "orders" := by decide
  have pets_stem : stem "Pets" = "pets" := by decide
  have lower_stem : stem "pets" = "pets" := by decide
  have orders_key : Text.lower "orders" = "orders" := by decide
  have pets_key : Text.lower "pets" = "pets" := by decide
  have groups : groupBy (fun e => Text.lower (stem e.firstTag)) Endpoint.firstTag [e, f, g] =
      [⟨"orders", "Orders", [0]⟩, ⟨"pets", "Pets", [1, 2]⟩] := by
    simp [groupBy, List.zipIdx, addToGroup, first, second, third, orders_stem, pets_stem,
      lower_stem, orders_key, pets_key]
  show (tagGroups [e, f, g]).map _ = _
  rw [KeyGroup.tagGroups_of_sorted groups (by decide)]
  simp [orders_stem, pets_stem, farmUnits]

theorem farmRun_texts {all endpoints : List Endpoint} {u : OutputUnit} {texts : List ClientText}
    (h : List.Forall₂ (fun e t => ∃ before after,
      (farmRun all).backend.client ((farmRun all).clientContext u) e before = (.ok t, after))
      endpoints texts) :
    texts.map (·.implementation) = endpoints.map fun e => Client.fetchText e farmTarget := by
  rw [← List.forall₂_eq_eq_eq, List.forall₂_map_left_iff, List.forall₂_map_right_iff]
  refine h.flip.imp fun t e run => ?_
  obtain ⟨_, _, run⟩ := run
  rw [Client.fetch_text run]
  rfl

theorem Registry.run_operations_farm :
    ∃ (report : Report) (e f g : Endpoint) (r : Run) (c d : Rendering),
    CommandLine.registry.run farm farmTarget = .ok report ∧
      [e, f, g].map Endpoint.place =
        [("/orders", .get, ["Orders"]), ("/pets", .get, ["Pets"]), ("/pets", .post, ["pets"])] ∧
      r.units = farmUnits ∧ [c.unit, d.unit] = farmUnits ∧
      report.files = [r.clientPage c, r.clientPage d] ∧
      c.texts.map (·.implementation) = [Client.fetchText e farmTarget] ∧
      ∃ imports, (r.clientPage d).ConsistsOf r.state.banner imports
        [d.header, Client.fetchText f farmTarget, Client.fetchText g farmTarget, d.footer] := by
  obtain ⟨e, f, g, built, orders, pets, lower, f_name, g_name⟩ := farm_endpoints
  have units := farmRun_units orders pets lower
  have starts : (farmRun [e, f, g]).Starts CommandLine.registry farm :=
    { backend := rfl, emitter := rfl, resolved := rfl, endpoints := built,
      distinct := by
        have apart : (Text.lower f.name.camel == Text.lower g.name.camel) = false := by
          rw [f_name, g_name]
          decide
        rw [units]
        simp [farmUnits, farmRun, OutputUnit.collision?, OutputUnit.endpoints, findCollision,
          apart] }
  have run := Run.run_eq_ok.mpr ⟨_, starts, rfl, rfl⟩
  have total : (farmRun [e, f, g]).Total :=
    ⟨fun _ _ _ => ⟨_, rfl⟩, fun _ => ⟨_, rfl⟩, fun _ _ _ => ⟨_, _, rfl⟩, fun _ _ => ⟨_, rfl⟩⟩
  have wf : farm.WellFormed := by
    refine ⟨by decide, fun route item mem => ?_⟩
    simp only [farm, List.mem_cons, Prod.mk.injEq, List.not_mem_nil, or_false] at mem
    obtain ⟨_, rfl⟩ | ⟨_, rfl⟩ := mem <;> decide
  obtain ⟨_, endpoints, _, again, _, _, places, _, _, _, runs⟩ :=
    run_operations wf starts.resolved CommandLine.registry farmTarget
  cases again.symm.trans built
  obtain ⟨r, renderings, begun, target, _, _, renders, files, content⟩ :=
    runs _ run total.report_errors
  cases begun.unique starts target
  rw [units] at renders
  obtain ⟨c, _, first, later, rfl⟩ := List.forall₂_cons_left_iff.mp renders
  obtain ⟨d, _, second, none, rfl⟩ := List.forall₂_cons_left_iff.mp later
  cases List.forall₂_nil_left_iff.mp none
  have bare : (farmRun [e, f, g]).state.modelFiles = [] := Run.modelFiles_nil rfl
  have pages : (farmRun [e, f, g]).state.modelPages = [] := Run.modelPages_nil rfl
  obtain ⟨_, bodies, embeds, consists⟩ := content d (.tail _ (.head _))
  have alone : bodies = [] := by
    rcases embeds with ⟨_, file, _⟩ | ⟨_, alone⟩
    · rw [bare] at file
      cases file
    · exact alone
  rw [alone, farmRun_texts second.texts] at consists
  refine ⟨_, e, f, g, _, c, d, run, places, units, ?_, ?_, farmRun_texts first.texts, _, consists⟩
  · rw [first.unit, second.unit]
    rfl
  · rw [files, pages]
    rfl

end TypedClients
