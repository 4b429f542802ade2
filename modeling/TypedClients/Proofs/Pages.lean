import TypedClients.Proofs.Declared

namespace TypedClients

inductive Page where
  | models (f : ModelFile)
  | client (c : Rendering)

namespace Page

def path : Page → String
  | .models f => f.path
  | .client c => c.unit.path

def file? (r : Run) : Page → Option ModelFile
  | .models f => some f
  | .client c => r.state.embedded? c.unit

def texts : Page → List ClientText
  | .models _ => []
  | .client c => c.texts

def imports (r : Run) : Page → List Dependency
  | .models f => mergeDependencies (r.state.modelImports f)
  | .client c => r.state.unitImports r.backend c.unit (c.unit.endpoints r.endpoints) c.texts

def sections (r : Run) : Page → List String
  | .models f => [f.body]
  | .client c => ((r.state.embedded? c.unit).map ModelFile.body).toList ++
      c.header :: c.texts.map (·.implementation) ++ [c.footer]

def write (r : Run) (p : Page) : GeneratedFile :=
  ⟨p.path, writePage r.state.banner ((p.imports r).map Dependency.write) (p.sections r)⟩

def Declares (r : Run) (p : Page) (name : String) : Prop :=
  ∃ f, p.file? r = some f ∧ f.Declares name

/-- The page speaks of a model: a model on it does, or the text of an operation. -/
def Mentions (r : Run) (p : Page) (name : String) : Prop :=
  (∃ f, p.file? r = some f ∧ ∃ e ∈ f.entries, name ∈ e.imports) ∨ ∃ t ∈ p.texts, name ∈ t.models

end Page

namespace Run

def pages (r : Run) (renderings : List Rendering) : List Page :=
  (r.state.modelFiles.filter fun f => !r.state.isEmbedded f).map .models ++ renderings.map .client

/-- The imports bring the model from the file where it is located. -/
def Brings (r : Run) (importer : String) (ds : List Dependency) (name : String) : Prop :=
  ∃ specifier path, Keyed.find? name r.state.locations = some path ∧
    Imports ds specifier name ∧ Leads importer specifier path

/-- Every model of which the page speaks is declared on it or imported from where it is. -/
def Supplies (r : Run) (p : Page) : Prop :=
  ∀ name, p.Mentions r name → p.Declares r name ∨ r.Brings p.path (p.imports r) name

def ownImports (r : Run) (c : Rendering) : List Dependency :=
  r.backend.dependencies (r.state.dependencyOptions (c.unit.endpoints r.endpoints)) ++
    r.state.clientImports c.unit (c.texts.flatMap (·.models))

/-- Models that a unit takes in come from its own directory, or the unit imports all that they
need. -/
def Settled (r : Run) : Page → Prop
  | .models _ => True
  | .client c => ∀ f, r.state.embedded? c.unit = some f →
      directory c.unit.path = directory f.path ∨
        ∀ name ∈ f.external, r.Brings c.unit.path (r.ownImports c) name

theorem Brings.mono {r : Run} {importer name : String} {ds es : List Dependency}
    (h : r.Brings importer ds name)
    (more : ∀ specifier, Imports ds specifier name → Imports es specifier name) :
    r.Brings importer es name := by
  obtain ⟨specifier, path, found, imports, leads⟩ := h
  exact ⟨specifier, path, found, more specifier imports, leads⟩

theorem embedded_iff {r : Run} {u : OutputUnit} {f : ModelFile} :
    r.state.embedded? u = some f ↔
      f ∈ r.state.modelFiles ∧ Text.lower u.path = Text.lower f.path := by
  constructor
  · intro taken
    exact ⟨List.mem_of_find?_eq_some taken, by simpa [sameFile] using List.find?_some taken⟩
  · intro given
    obtain ⟨file, same⟩ := given
    have taken : ∃ g, r.state.embedded? u = some g := by
      apply Option.isSome_iff_exists.mp
      apply List.find?_isSome.mpr
      exact ⟨f, file, by simp [sameFile, same]⟩
    obtain ⟨g, found⟩ := taken
    have first : Text.lower u.path = Text.lower g.path := by
      simpa [sameFile] using List.find?_some found
    rw [found, ModelFile.assemble_injective (List.mem_of_find?_eq_some found) file
      (first.symm.trans same)]

theorem mem_pages {r : Run} {renderings : List Rendering}
    (renders : List.Forall₂ r.Renders r.units renderings) {p : Page}
    (page : p ∈ r.pages renderings) : (∃ f ∈ r.state.modelFiles, p = .models f) ∨
      ∃ c, p = .client c ∧ c.unit ∈ r.units ∧ r.Renders c.unit c := by
  rcases List.mem_append.mp page with models | client
  · obtain ⟨f, kept, rfl⟩ := List.mem_map.mp models
    exact .inl ⟨f, (List.mem_filter.mp kept).1, rfl⟩
  · obtain ⟨c, rendering, rfl⟩ := List.mem_map.mp client
    obtain ⟨u, unit, rendered⟩ := Outcome.mem_of_forall₂ renders rendering
    have same := rendered.unit
    subst same
    exact .inr ⟨c, rfl, unit, rendered⟩

theorem imports_unit {r : Run} {c : Rendering} {specifier name : String} :
    Imports (Page.imports r (.client c)) specifier name ↔
      Imports (r.ownImports c) specifier name ∨ ∃ f, r.state.embedded? c.unit = some f ∧
        Imports (r.state.modelImports f) specifier name := by
  show Imports (r.state.unitImports _ _ _ _) _ _ ↔ _
  unfold RunState.unitImports ownImports
  dsimp only
  rw [imports_filter_bindings, imports_mergeDependencies, imports_append, imports_append,
    imports_append]
  cases r.state.embedded? c.unit with
  | none =>
    have nothing : ¬ Imports [] specifier name := by simp [Imports]
    simp [nothing]
  | some f =>
    simp only [Option.map_some, Option.getD_some, Option.some.injEq, exists_eq_left']
    tauto

namespace Sound

variable {r : Run} {doc : Document} {name : String}

theorem imports_external {f : ModelFile} {typeOnly : Bool} {specifier : String} :
    Imports (f.dependencies r.state.locations typeOnly) specifier name ↔ name ∈ f.external ∧
      ∃ path, Keyed.find? name r.state.locations = some path ∧
        specifier = relativeSpecifier f.path path := by
  unfold ModelFile.dependencies
  rw [imports_modelDependencies]
  constructor
  · intro given
    obtain ⟨path, placed, same⟩ := given
    obtain ⟨mem, found⟩ := mem_located.mp placed
    exact ⟨mem, path, found, same⟩
  · intro given
    obtain ⟨mem, path, found, same⟩ := given
    exact ⟨path, mem_located.mpr ⟨mem, found⟩, same⟩

theorem brings_external (h : r.Sound doc) {f : ModelFile} (file : f ∈ r.state.modelFiles)
    (mem : name ∈ f.external) {importer : String} (place : directory importer = directory f.path) :
    r.Brings importer (r.state.modelImports f) name := by
  obtain ⟨own, other, path, found⟩ := h.external_located file mem
  refine ⟨_, _, found, imports_append.mpr (.inr (imports_external.mpr ⟨mem, _, found, rfl⟩)), ?_⟩
  have beside : directory f.path = directory ("model" ++ "/" ++ stem other ++ ".ts") := by
    rw [path, directory_model, directory_model]
  exact (leads_congr place).mpr (leads_beside beside)

theorem supplies_models (h : r.Sound doc) {f : ModelFile} (file : f ∈ r.state.modelFiles) :
    r.Supplies (.models f) := by
  intro name given
  rcases given with ⟨g, same, e, own, imported⟩ | ⟨t, none, _⟩
  · cases same
    by_cases declared : f.Declares name
    · exact .inl ⟨f, rfl, declared⟩
    · right
      have mem : name ∈ f.external := ModelFile.mem_external.mpr ⟨⟨e, own, imported⟩, declared⟩
      apply (h.brings_external file mem rfl).mono
      intro specifier found
      exact imports_mergeDependencies.mpr found
  · cases none

theorem supplies_text (h : r.Sound doc) {c : Rendering} (unit : c.unit ∈ r.units)
    {t : ClientText} (text : t ∈ c.texts) (mem : name ∈ t.models)
    (declared : ∃ e ∈ r.entries, e.name = name) :
    Page.Declares r (.client c) name ∨ r.Brings c.unit.path (r.ownImports c) name := by
  obtain ⟨e, listed, rfl⟩ := declared
  obtain ⟨n, found, g, file, path, declares⟩ := h.located listed
  by_cases own : Text.equalIgnoringCase (modelPath r.target.mode r.fileStem n) c.unit.path = true
  · left
    have case : Text.lower c.unit.path = Text.lower g.path := by
      rw [path]
      exact (Text.lower_eq_of_equalIgnoringCase own).symm
    exact ⟨g, embedded_iff.mpr ⟨file, case⟩, declares⟩
  · right
    refine ⟨_, _, found, imports_append.mpr (.inr ?_), unit_leads h.named unit n⟩
    unfold RunState.clientImports
    rw [imports_modelDependencies]
    refine ⟨_, List.mem_filter.mpr ⟨mem_located.mpr ⟨?_, found⟩, ?_⟩, rfl⟩
    · exact Names.mem_ofList.mpr (List.mem_flatMap.mpr ⟨t, text, mem⟩)
    · simpa using own

theorem settled_of_supplies (h : r.Sound doc) {c : Rendering} (unit : c.unit ∈ r.units)
    (supplies : r.Supplies (.client c)) : r.Settled (.client c) := by
  intro f taken
  obtain ⟨file, _⟩ := embedded_iff.mp taken
  by_cases place : directory c.unit.path = directory f.path
  · exact .inl place
  · right
    intro name mem
    obtain ⟨⟨e, own, imported⟩, undeclared⟩ := ModelFile.mem_external.mp mem
    rcases supplies name (.inl ⟨f, taken, e, own, imported⟩) with ⟨g, same, declared⟩ | brings
    · cases taken.symm.trans same
      exact absurd declared undeclared
    · obtain ⟨specifier, path, found, imports, leads⟩ := brings
      refine ⟨specifier, path, found, ?_, leads⟩
      rcases imports_unit.mp imports with own | ⟨g, same, there⟩
      · exact own
      · cases taken.symm.trans same
        rcases imports_append.mp there with package | elsewhere
        · obtain ⟨d, listed, rfl, _⟩ := package
          exact absurd leads.1 (h.emitter.packages d listed)
        · obtain ⟨_, other, known, rfl⟩ := imports_external.mp elsewhere
          obtain ⟨own, target, here, placed⟩ := h.external_located file mem
          obtain ⟨d, at_d, plain⟩ :=
            unit_directory_split h.named (h.splits_of_external file mem) unit
          cases known.symm.trans found
          cases placed.symm.trans found
          exact absurd leads (not_leads_astray at_d plain place here)

theorem supplies_of_settled (h : r.Sound doc) {c : Rendering} (unit : c.unit ∈ r.units)
    (renders : r.Renders c.unit c) (settled : r.Settled (.client c)) : r.Supplies (.client c) := by
  have own : ∀ {name}, r.Brings c.unit.path (r.ownImports c) name →
      r.Brings c.unit.path (Page.imports r (.client c)) name := by
    intro name brings
    apply brings.mono
    intro specifier found
    exact imports_unit.mpr (.inl found)
  intro name given
  rcases given with ⟨f, taken, e, inside, imported⟩ | ⟨t, text, mem⟩
  · by_cases declared : f.Declares name
    · exact .inl ⟨f, taken, declared⟩
    · right
      obtain ⟨file, _⟩ := embedded_iff.mp taken
      have mem : name ∈ f.external := ModelFile.mem_external.mpr ⟨⟨e, inside, imported⟩, declared⟩
      rcases settled f taken with place | brings
      · apply (h.brings_external file mem place).mono
        intro specifier found
        exact imports_unit.mpr (.inr ⟨f, taken, found⟩)
      · exact own (brings name mem)
  · have declared := h.declared_of_text renders text mem
    exact (h.supplies_text unit text mem declared).imp_right own

theorem declared_of_mention (h : r.Sound doc) {renderings : List Rendering}
    (renders : List.Forall₂ r.Renders r.units renderings) {p : Page} (page : p ∈ r.pages renderings)
    (mention : p.Mentions r name) : ∃ e ∈ r.entries, e.name = name := by
  have own : ∀ f ∈ r.state.modelFiles, ∀ e ∈ f.entries, name ∈ e.imports →
      ∃ d ∈ r.entries, d.name = name := by
    intro f file e inside imported
    exact h.declared_of_import ((ModelFile.mem_entries file).mp inside).1 imported
  rcases mem_pages renders page with ⟨f, file, rfl⟩ | ⟨c, rfl, _, rendered⟩
  · rcases mention with ⟨g, same, e, inside, imported⟩ | ⟨t, none, _⟩
    · cases same
      exact own f file e inside imported
    · cases none
  · rcases mention with ⟨f, taken, e, inside, imported⟩ | ⟨t, text, mem⟩
    · exact own f (embedded_iff.mp taken).1 e inside imported
    · exact h.declared_of_text rendered text mem

theorem supplies_iff (h : r.Sound doc) {renderings : List Rendering}
    (renders : List.Forall₂ r.Renders r.units renderings) {p : Page}
    (page : p ∈ r.pages renderings) : r.Supplies p ↔ r.Settled p := by
  rcases mem_pages renders page with ⟨f, file, rfl⟩ | ⟨c, rfl, unit, rendered⟩
  · have supplies := h.supplies_models file
    exact ⟨fun _ => True.intro, fun _ => supplies⟩
  · exact ⟨h.settled_of_supplies unit, h.supplies_of_settled unit rendered⟩

/-- Only the layout with a directory for each tag can embed models from another directory. -/
theorem settled_of_mode (h : r.Sound doc) (mode : r.target.mode ≠ .tagsSplit) {c : Rendering}
    (unit : c.unit ∈ r.units) : r.Settled (.client c) := by
  intro f taken
  right
  intro name mem
  obtain ⟨file, case⟩ := embedded_iff.mp taken
  have splits := h.splits_of_external file mem
  obtain ⟨own, _, path, _⟩ := h.external_located file mem
  exfalso
  unfold units planUnits at unit
  cases given : r.target.mode with
  | single => rw [given] at splits; cases splits
  | split => rw [given] at splits; cases splits
  | tags => rw [given] at splits; cases splits
  | tagsSplit => exact mode given
  | operations =>
    rw [given] at unit
    obtain ⟨g, _, same⟩ := List.mem_map.mp unit
    rw [← same, path] at case
    have left : "endpoints/" ++ g.label ++ ".ts" = "endpoints/" ++ (g.label ++ ".ts") :=
      String.append_assoc ..
    have right : "model" ++ "/" ++ stem own ++ ".ts" = "model/" ++ (stem own ++ ".ts") :=
      String.append_assoc ..
    rw [left, right] at case
    exact endpoint_ne_model _ _ case

end Sound

theorem report_files {r : Run} {renderings : List Rendering}
    (files : r.report.files = r.state.modelPages ++ renderings.map r.clientPage) :
    r.report.files = (r.pages renderings).map (Page.write r) := by
  rw [files]
  unfold pages RunState.modelPages
  rw [List.map_append, List.map_map, List.map_map]
  rfl

end Run

/-- When nothing fails, the reachable schemas are declared one for one, and every model of which the
output speaks is among them. A page declares or imports the models of which it speaks unless its
unit takes in models from another directory, which only a directory for each tag allows, and does
not itself import what they need: their imports are written for where they came from. -/
theorem CommandLine.registry_run_models {doc : Document} {target : Target} {report : Report}
    (h : registry.run doc target = .ok report) (clean : report.errors = []) :
    ∃ (r : Run) (renderings : List Rendering),
      (r.Starts registry doc ∧ r.target = target ∧
        List.Forall₂ r.Renders r.units renderings ∧
        report.files = (r.pages renderings).map (Page.write r)) ∧
      (r.reachable.Nodup ∧ report.models = r.entries.length ∧
        List.Forall₂ (fun n e => r.Emits n e ∧ e.name = (Name.ofText n).pascal) r.reachable
          r.entries ∧
        (r.state.modelFiles.flatMap ModelFile.entries).Perm r.entries) ∧
      (∀ e ∈ r.entries, ∀ m ∈ e.imports, ∃ d ∈ r.entries, d.name = m) ∧
      (∀ e ∈ r.endpoints, ∀ m ∈ e.modelRefs, ∃ d ∈ r.entries, d.name = m) ∧
      (∀ p ∈ r.pages renderings, ∀ m, p.Mentions r m → ∃ e ∈ r.entries, e.name = m) ∧
      (∀ p ∈ r.pages renderings, r.Supplies p ↔ r.Settled p) ∧
      (target.mode ≠ .tagsSplit → ∀ p ∈ r.pages renderings, r.Supplies p) := by
  obtain ⟨r, starts, rfl, rfl⟩ := Run.run_eq_ok.mp h
  obtain ⟨emits, renderings, renders, files⟩ := Run.report_clean clean
  have sound := Run.Sound.of_report starts clean
  have named : List.Forall₂ (fun n e => r.Emits n e ∧ e.name = (Name.ofText n).pascal) r.reachable
      r.entries := by
    refine emits.imp ?_
    intro n e given
    obtain ⟨s, found, run⟩ := given
    exact ⟨⟨s, found, run⟩, (sound.emitter.emit _ _ _ _ run).1⟩
  refine ⟨r, renderings, ⟨starts, rfl, renders, Run.report_files files⟩,
    ⟨?_, rfl, named, ModelFile.assemble_perm _⟩, fun e mem m => sound.declared_of_import mem,
    fun e mem m => sound.declared_of_modelRefs mem,
    fun p page m => sound.declared_of_mention renders page,
    fun p page => sound.supplies_iff renders page, ?_⟩
  · exact (Names.ofList_increasing _).imp fun less => String.ne_of_lt less
  · intro mode p page
    apply (sound.supplies_iff renders page).mpr
    rcases Run.mem_pages renders page with ⟨f, _, rfl⟩ | ⟨c, rfl, unit, _⟩
    · exact True.intro
    · exact sound.settled_of_mode mode unit

open Outcome

def zooModel : Schema :=
  { type := some (.single .object), properties := [("pet", .ref "#/components/schemas/Pet")] }

def zooPet : Schema :=
  { type := some (.single .object)
    properties := [("name", .item { type := some (.single .string) })] }

def zooResponse : Response :=
  { description := "ok"
    content := [("application/json", { schema := some (.ref "#/components/schemas/Model") })] }

def zooOperation : Operation :=
  { operationId := some "getModel", tags := ["moDel"], responses := [("200", .item zooResponse)] }

def zoo : Document where
  openapi := "3.0.3"
  info := { title := "Zoo", version := "1" }
  paths := [("/m", { operations := [(.get, zooOperation)] })]
  components := some { schemas := [("Model", .item zooModel), ("Pet", .item zooPet)] }

def zooTarget : Target := { mode := .tagsSplit }

def zooArena : Arena := ⟨[("Model", .item zooModel), ("Pet", .item zooPet)]⟩

def zooResolved : Resolved := ⟨{ zoo with components := some {} }, zooArena⟩

namespace Document

theorem zoo_model : Pointer.schemaName? "#/components/schemas/Model" = some "Model" := by decide

theorem zoo_pet : Pointer.schemaName? "#/components/schemas/Pet" = some "Pet" := by decide

theorem zoo_model_spelled :
    normalReference "#/components/schemas/Model" = "#/components/schemas/Model" := by decide

theorem zoo_pet_spelled :
    normalReference "#/components/schemas/Pet" = "#/components/schemas/Pet" := by decide

theorem zoo_paths_of_declared {doc : Document} (paths : doc.paths = zoo.paths)
    (known : doc.declares "Model" = true) : doc.resolvePaths = .ok zoo.paths := by
  have checked : ∀ location, checkSchema doc.declares location (.ref "#/components/schemas/Model") =
      .ok (.ref "#/components/schemas/Model") := by
    intro location
    rw [checkSchema_of_named, normalRef, zoo_model_spelled]
    intro path mentioned
    cases mentioned
    exact ⟨_, zoo_model, known⟩
  have operation : ∀ location, doc.resolveOperation location zooOperation = .ok zooOperation := by
    intro location
    simp [zooOperation, zooResponse, resolveOperation, resolveParameters, resolveOptionalBody,
      resolveResponse, ComponentTable.follow, ComponentTable.followFrom, resolveContent,
      checkOption, checked, bind, Except.bind, Except.map, pure, Except.pure]
  unfold resolvePaths
  rw [paths]
  show [("/m", _)].mapM _ = _
  simp only [resolvePathItem, resolveParameters, List.mapM_cons, List.mapM_nil, operation, bind,
    Except.bind, Except.map, pure, Except.pure, List.zipIdx_nil]
  rfl

theorem zoo_paths : zoo.resolvePaths = .ok zoo.paths := zoo_paths_of_declared rfl rfl

theorem zoo_schemas : zoo.resolveSchemas = .ok zooArena := by
  have model : ∀ location, checkSchema zoo.declares location (.item zooModel) =
      .ok (.item zooModel) := by
    intro location
    rw [checkSchema_of_named]
    · simp [zooModel, normalRef, normalSchema, normalTable, normalList, normalOption,
        normalAdditional, zoo_pet_spelled]
    · intro path mentioned
      cases mentioned with
      | inside held mentioned =>
        obtain ⟨_, child⟩ := Schema.holds_iff_child.mp held
        cases child with
        | head =>
          cases mentioned
          exact ⟨_, zoo_pet, by decide⟩
        | tail _ none => cases none
  have pet : ∀ location, checkSchema zoo.declares location (.item zooPet) = .ok (.item zooPet) := by
    intro location
    rw [checkSchema_of_named]
    · simp [zooPet, normalRef, normalSchema, normalTable, normalList, normalOption,
        normalAdditional]
    · intro path mentioned
      cases mentioned with
      | inside held mentioned =>
        obtain ⟨_, child⟩ := Schema.holds_iff_child.mp held
        cases child with
        | head =>
          cases mentioned with
          | inside held _ =>
            obtain ⟨_, none⟩ := Schema.holds_iff_child.mp held
            cases none
        | tail _ none => cases none
  show ([("Model", _), ("Pet", _)].mapM _ >>= _) = _
  simp only [List.mapM_cons, List.mapM_nil, model, pet, bind, Except.bind, pure, Except.pure]
  rfl

theorem zoo_resolve : zoo.resolve = .ok zooResolved := by
  have entries : zooArena.mappingEntries = [] := by
    have model : zooModel.children = [(.property "pet", .ref "#/components/schemas/Pet")] := rfl
    have pet : zooPet.children = [(.property "name", .item { type := some (.single .string) })] :=
      rfl
    have name : Schema.children { type := some (.single .string) } = [] := rfl
    unfold Arena.mappingEntries
    simp only [zooArena, List.flatMap_cons, List.flatMap_nil, SchemaRef.inlined_item, model, pet,
      name, SchemaRef.inlined]
    rfl
  have injected : zooArena.injectDiscriminators = .ok ⟨zooArena, []⟩ := by
    unfold Arena.injectDiscriminators
    rw [entries]
    rfl
  have model : zooArena.concrete "Model" = .ok ("Model", zooModel) :=
    Arena.concrete_eq_ok.mpr ⟨.item rfl, rfl⟩
  have pet : zooArena.concrete "Pet" = .ok ("Pet", zooPet) :=
    Arena.concrete_eq_ok.mpr ⟨.item rfl, rfl⟩
  have proper : (zooArena.names.forM fun n => (zooArena.concrete n).map fun _ => ()) = .ok () := by
    show ((zooArena.concrete "Model").map _ >>= fun _ =>
      (zooArena.concrete "Pet").map _ >>= fun _ => pure ()) = _
    rw [model, pet]
    rfl
  refine bind_eq_ok.mpr ⟨_, zoo_paths, bind_eq_ok.mpr ⟨_, zoo_schemas, ?_⟩⟩
  refine bind_eq_ok.mpr ⟨_, proper, bind_eq_ok.mpr ⟨⟨zooArena, []⟩, ?_, rfl⟩⟩
  rw [injected]
  rfl

end Document

theorem zoo_endpoints_of_paths {resolved : Resolved} (paths : resolved.document.paths = zoo.paths)
    (mode : OutputMode) : ∃ e, buildEndpoints resolved { mode } = .ok [e] ∧
      e.schemaRoots = [.ref "#/components/schemas/Model"] ∧ e.tags = ["moDel"] ∧
      e.mutator = none ∧ e.queryParams = [] := by
  let target : Target := { mode }
  have selected : selectedOperations target resolved.document.paths =
      [("/m", { operations := [(.get, zooOperation)] }, .get, zooOperation)] := by
    rw [paths]
    rfl
  have success : isSuccessStatus "200" = true := by decide
  have built : ∃ e, Endpoint.build resolved.arena target "/m" [] .get zooOperation = .ok e ∧
      e.schemaRoots = [.ref "#/components/schemas/Model"] ∧ e.tags = ["moDel"] ∧
      e.mutator = none ∧ e.queryParams = [] := by
    unfold Endpoint.build
    refine ⟨_, rfl, ?_, rfl, rfl, rfl⟩
    have bare : placeholders "/m" = [] := by decide
    simp [Endpoint.schemaRoots, Endpoint.params, Responses.variants, Responses.build, zooOperation,
      zooResponse, responseVariants, success, mergeParameters, orderPathParams, bare]
  obtain ⟨e, run, facts⟩ := built
  refine ⟨e, ?_, facts⟩
  unfold buildEndpoints
  rw [selected]
  simp only [List.mapM_cons, List.mapM_nil]
  rw [run]
  rfl

theorem zoo_endpoints : ∃ e, buildEndpoints zooResolved zooTarget = .ok [e] ∧
    e.schemaRoots = [.ref "#/components/schemas/Model"] ∧ e.tags = ["moDel"] ∧
    e.mutator = none ∧ e.queryParams = [] := zoo_endpoints_of_paths rfl .tagsSplit

def zooRun (e : Endpoint) : Run := ⟨Client.fetch, TypeScript.emitter, zooResolved, zooTarget, [e]⟩

theorem zooRun_units {e : Endpoint} (tags : e.tags = ["moDel"]) :
    (zooRun e).units = [⟨"moDel", "moDel/moDel.ts", [0]⟩] := by
  have first : e.firstTag = "moDel" := by
    unfold Endpoint.firstTag
    rw [tags]
    rfl
  have tag : stem "moDel" = "moDel" := by decide
  have groups : tagGroups [e] = [⟨Text.lower (stem "moDel"), "moDel", [0]⟩] := by
    unfold tagGroups
    rw [← first]
    exact List.mergeSort_singleton _
  show (tagGroups [e]).map _ = _
  rw [groups, List.map_singleton, tag]
  rfl

theorem zooRun_starts {e : Endpoint} (built : buildEndpoints zooResolved zooTarget = .ok [e])
    (tags : e.tags = ["moDel"]) : (zooRun e).Starts CommandLine.registry zoo where
  backend := rfl
  emitter := rfl
  resolved := Document.zoo_resolve
  endpoints := built
  distinct := by
    rw [zooRun_units tags]
    rfl

theorem zooRun_total (e : Endpoint) : (zooRun e).Total where
  emit _ _ _ := ⟨_, rfl⟩
  header _ := ⟨_, rfl⟩
  client _ _ _ := ⟨_, _, rfl⟩
  footer _ _ := ⟨_, rfl⟩

section

variable {e : Endpoint} {c : Rendering}

theorem zooRun_reaches_model (root : e.schemaRoots = [.ref "#/components/schemas/Model"]) :
    "Model" ∈ (zooRun e).reachable := by
  have among : SchemaRef.RefersTo (.ref "#/components/schemas/Model") "Model" :=
    .reference (.here _) Document.zoo_model
  have listed : Referenced.ref "#/components/schemas/Model" ∈
      (zooRun e).endpoints.flatMap Endpoint.schemaRoots := by
    show _ ∈ [e].flatMap Endpoint.schemaRoots
    simp [root]
  exact (Arena.reachable_closed _ _).roots _ listed "Model" List.mem_cons_self among

theorem zooModel_refs : "Pet" ∈ (Model.ofSchema "Model" (.item zooModel)).refs := by
  have pet : refTypeName "#/components/schemas/Pet" = "Pet" := by decide
  unfold Model.refs
  rw [Names.mem_ofList]
  simp [Model.ofSchema, Schema.modelBody, zooModel, Schema.isInterfaceLike, Schema.fields,
    SchemaRef.typeExpr, TypeExpr.refs, pet]

theorem zoo_path_model (fileStem : String) :
    modelPath .tagsSplit fileStem "Model" = "model/model.ts" := by
  have small : stem "Model" = "model" := by decide
  show "model/" ++ stem "Model" ++ ".ts" = _
  rw [small]
  rfl

theorem zoo_path_pet (fileStem : String) : modelPath .tagsSplit fileStem "Pet" = "model/pet.ts" := by
  have small : stem "Pet" = "pet" := by decide
  show "model/" ++ stem "Pet" ++ ".ts" = _
  rw [small]
  rfl

theorem zooRun_own (sound : (zooRun e).Sound zoo)
    (h : e.schemaRoots = [.ref "#/components/schemas/Model"]) (mutator : e.mutator = none)
    (query : e.queryParams = []) (unit : c.unit = ⟨"moDel", "moDel/moDel.ts", [0]⟩)
    (renders : (zooRun e).Renders c.unit c) {specifier : String} :
    ¬ Imports ((zooRun e).ownImports c) specifier "Pet" := by
  intro imports
  have endpoints : c.unit.endpoints (zooRun e).endpoints = [e] := by
    rw [unit]
    rfl
  rcases imports_append.mp imports with custom | model
  · rw [endpoints] at custom
    have none : (zooRun e).backend.dependencies ((zooRun e).state.dependencyOptions [e]) = [] := by
      show Client.customDependencies _ = []
      simp [Client.customDependencies, RunState.dependencyOptions, mutator, query]
    rw [none] at custom
    obtain ⟨_, none, _⟩ := custom
    cases none
  · unfold RunState.clientImports at model
    rw [imports_modelDependencies] at model
    obtain ⟨path, kept, _⟩ := model
    obtain ⟨listed, _⟩ := mem_located.mp (List.mem_filter.mp kept).1
    obtain ⟨t, text, mem⟩ := List.mem_flatMap.mp (Names.mem_ofList.mp listed)
    obtain ⟨a, own, before, after, run⟩ := Outcome.mem_of_forall₂ renders.texts text
    rw [endpoints] at own
    have same := List.mem_singleton.mp own
    subst same
    rw [Client.fetch_text run] at mem
    obtain ⟨shared, op, built, _⟩ := buildEndpoints_builtFrom sound.endpoints own
    obtain ⟨s, root, path, mentioned, named⟩ := built.modelRefs mem
    rw [h] at root
    have same := List.mem_singleton.mp root
    subst same
    cases mentioned
    revert named
    decide

theorem zooRun_model (sound : (zooRun e).Sound zoo)
    (root : e.schemaRoots = [.ref "#/components/schemas/Model"]) :
    ∃ d ∈ (zooRun e).entries, d.path = "model/model.ts" ∧ "Pet" ∈ d.imports := by
  obtain ⟨d, listed, s, found, run⟩ :=
    Outcome.mem_of_forall₂ sound.emits.flip (zooRun_reaches_model root)
  have stored : zooArena.find? "Model" = some (.item zooModel) := rfl
  cases stored.symm.trans found
  cases Except.ok.inj run
  have different : "Pet" ≠ (Model.ofSchema "Model" (.item zooModel)).name.pascal := by
    decide
  refine ⟨_, listed, zoo_path_model (zooRun e).fileStem, ?_⟩
  exact List.mem_filter.mpr ⟨zooModel_refs, by simpa using different⟩

theorem zooRun_unsettled (sound : (zooRun e).Sound zoo)
    (root : e.schemaRoots = [.ref "#/components/schemas/Model"]) (mutator : e.mutator = none)
    (query : e.queryParams = []) (unit : c.unit = ⟨"moDel", "moDel/moDel.ts", [0]⟩)
    (renders : (zooRun e).Renders c.unit c) : ¬ (zooRun e).Settled (.client c) := by
  intro settled
  obtain ⟨d, listed, path, imported⟩ := zooRun_model sound root
  have case : Text.lower "moDel/moDel.ts" = Text.lower "model/model.ts" := by decide
  obtain ⟨f, file, inside⟩ := ModelFile.mem_of_assemble listed
  have beside : Text.lower d.path = Text.lower f.path := ((ModelFile.mem_entries file).mp inside).2
  have same : Text.lower c.unit.path = Text.lower f.path := by rw [unit, case, ← path, beside]
  have taken : (zooRun e).state.embedded? c.unit = some f := Run.embedded_iff.mpr ⟨file, same⟩
  rw [unit, case] at same
  rcases settled f taken with place | brings
  · obtain ⟨n, at_path⟩ := sound.file_path file
    have there : directory f.path = ["model"] := by
      rw [at_path]
      exact directory_model n
    have here : directory "moDel/moDel.ts" = ["moDel"] := by decide
    rw [unit, here, there] at place
    revert place
    decide
  · have undeclared : ¬ f.Declares "Pet" := by
      intro given
      obtain ⟨a, own, named⟩ := given
      obtain ⟨mem, lower⟩ := (ModelFile.mem_entries file).mp own
      obtain ⟨n, reached, s, found, run⟩ := Outcome.mem_of_forall₂ sound.emits mem
      obtain ⟨name, at_path, _⟩ := sound.emitter.emit _ _ _ _ run
      have known : n ∈ ["Model", "Pet"] := (Arena.reachable_closed _ _).stored n reached
      rcases List.mem_cons.mp known with rfl | known
      · rw [name] at named
        revert named
        decide
      · have pet := List.mem_singleton.mp known
        subst pet
        have at_pet : a.path = "model/pet.ts" := at_path.trans (zoo_path_pet _)
        rw [at_pet, ← same] at lower
        revert lower
        decide
    have external : "Pet" ∈ f.external :=
      ModelFile.mem_external.mpr ⟨⟨d, inside, imported⟩, undeclared⟩
    obtain ⟨specifier, _, _, imports, _⟩ := brings "Pet" external
    exact zooRun_own sound root mutator query unit renders imports

end

theorem CommandLine.registry_run_models_zoo : ∃ report, registry.run zoo zooTarget = .ok report ∧
    report.errors = [] ∧ ∃ (r : Run) (renderings : List Rendering),
      r.Starts registry zoo ∧ r.target = zooTarget ∧
        report.files = (r.pages renderings).map (Page.write r) ∧
        ∃ p ∈ r.pages renderings, p.path = "moDel/moDel.ts" ∧ ¬ r.Supplies p := by
  obtain ⟨e, built, root, tags, mutator, query⟩ := zoo_endpoints
  have starts := zooRun_starts built tags
  have run := Run.run_eq_ok.mpr ⟨_, starts, rfl, rfl⟩
  have clean := (zooRun_total e).report_errors
  refine ⟨_, run, clean, ?_⟩
  obtain ⟨r, renderings, ⟨begun, target, renders, files⟩, _, _, _, _, settled, _⟩ :=
    registry_run_models run clean
  have same : r = zooRun e := begun.unique starts target
  subst same
  have sound := Run.Sound.of_report starts clean
  rw [zooRun_units tags] at renders
  obtain ⟨c, others, rendered, _, rfl⟩ := List.forall₂_cons_left_iff.mp renders
  have unit := rendered.unit
  have listed : Page.client c ∈ (zooRun e).pages (c :: others) :=
    List.mem_append_right _ List.mem_cons_self
  refine ⟨_, _, starts, rfl, files, _, listed, congrArg OutputUnit.path unit, ?_⟩
  intro supplies
  rw [← unit] at rendered
  exact zooRun_unsettled sound root mutator query unit rendered ((settled _ listed).mp supplies)

end TypedClients
