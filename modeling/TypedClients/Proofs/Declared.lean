import TypedClients.Proofs.Generators
import TypedClients.Proofs.Layout
import TypedClients.Proofs.ModelFiles
import TypedClients.Proofs.Run

namespace TypedClients

namespace Run

/-- A run of faithful generators in which nothing has failed. -/
structure Sound (r : Run) (doc : Document) : Prop where
  resolved : doc.resolve = .ok r.resolved
  endpoints : buildEndpoints r.resolved r.target = .ok r.endpoints
  backend : r.backend.Faithful
  emitter : r.emitter.Faithful
  emits : List.Forall₂ r.Emits r.reachable r.entries

theorem Sound.of_report {r : Run} {doc : Document} (starts : r.Starts CommandLine.registry doc)
    (clean : r.report.errors = []) : r.Sound doc where
  resolved := starts.resolved
  endpoints := starts.endpoints
  backend := CommandLine.registry_backend_faithful starts.backend
  emitter := CommandLine.registry_emitter_faithful starts.emitter
  emits := (report_clean clean).1

namespace Sound

variable {r : Run} {doc : Document} {name : String}

theorem entry (h : r.Sound doc) {e : ModelEntry} (mem : e ∈ r.entries) : ∃ n s,
    r.resolved.arena.find? n = some s ∧ n ∈ r.reachable ∧
      e.path = modelPath r.target.mode r.fileStem n ∧ ∀ m ∈ e.imports, s.MentionsModel m := by
  obtain ⟨n, listed, s, found, run⟩ := Outcome.mem_of_forall₂ h.emits mem
  obtain ⟨_, path, mentions⟩ := h.emitter.emit _ _ _ _ run
  exact ⟨n, s, found, listed, path, mentions⟩

theorem declared_of_reachable (h : r.Sound doc) {n : String} (mem : n ∈ r.reachable) :
    ∃ e ∈ r.entries, e.name = (Name.ofText n).pascal := by
  obtain ⟨e, listed, s, _, run⟩ := Outcome.mem_of_forall₂ h.emits.flip mem
  exact ⟨e, listed, (h.emitter.emit _ _ _ _ run).1⟩

theorem declared_of_canonical (h : r.Sound doc) {path : String}
    (canonical : r.resolved.arena.Canonical path)
    (closed : ∀ n ∈ r.resolved.arena.names, Pointer.schemaName? path = some n → n ∈ r.reachable) :
    ∃ e ∈ r.entries, e.name = refTypeName path := by
  obtain ⟨n, known, _, named⟩ := canonical
  obtain ⟨e, listed, name⟩ := h.declared_of_reachable (closed n known named)
  refine ⟨e, listed, ?_⟩
  rw [name]
  exact (Zod.modelName_eq named).symm

theorem declared_of_import (h : r.Sound doc) {e : ModelEntry} (mem : e ∈ r.entries)
    (imported : name ∈ e.imports) : ∃ d ∈ r.entries, d.name = name := by
  obtain ⟨n, s, found, reached, _, mentions⟩ := h.entry mem
  obtain ⟨path, mentioned, rfl⟩ := mentions name imported
  have stored : (n, s) ∈ r.resolved.arena.schemas := Keyed.mem_of_find? found
  apply h.declared_of_canonical (Document.resolve_arena_canonical h.resolved stored mentioned)
  intro m known named
  exact (Arena.reachable_closed _ _).members n reached s found m known (.reference mentioned named)

theorem declared_of_root (h : r.Sound doc) {e : Endpoint} (endpoint : e ∈ r.endpoints)
    {s : SchemaRef} (root : s ∈ e.schemaRoots) (mentions : s.MentionsModel name) :
    ∃ d ∈ r.entries, d.name = name := by
  obtain ⟨_, _, _, uses⟩ := buildEndpoints_builtFrom h.endpoints endpoint
  obtain ⟨path, mentioned, rfl⟩ := mentions
  apply h.declared_of_canonical
    (Document.resolve_uses_canonical h.resolved (uses s root) mentioned)
  intro m known named
  have among : s ∈ r.endpoints.flatMap Endpoint.schemaRoots :=
    List.mem_flatMap.mpr ⟨e, endpoint, root⟩
  exact (Arena.reachable_closed _ _).roots s among m known (.reference mentioned named)

theorem declared_of_modelRefs (h : r.Sound doc) {e : Endpoint} (endpoint : e ∈ r.endpoints)
    (mem : name ∈ e.modelRefs) : ∃ d ∈ r.entries, d.name = name := by
  obtain ⟨_, _, built, _⟩ := buildEndpoints_builtFrom h.endpoints endpoint
  obtain ⟨s, root, mentions⟩ := built.modelRefs mem
  exact h.declared_of_root endpoint root mentions

theorem declared_of_text (h : r.Sound doc) {u : OutputUnit} {c : Rendering} (renders : r.Renders u c)
    {t : ClientText} (text : t ∈ c.texts) (mem : name ∈ t.models) :
    ∃ e ∈ r.entries, e.name = name := by
  obtain ⟨e, own, before, after, run⟩ := Outcome.mem_of_forall₂ renders.texts text
  obtain ⟨i, _, numbered⟩ := List.mem_filterMap.mp own
  have endpoint : e ∈ r.endpoints := List.mem_of_getElem? numbered
  obtain ⟨shared, op, built, _⟩ := buildEndpoints_builtFrom h.endpoints endpoint
  obtain ⟨s, root, mentions⟩ := h.backend _ _ _ _ _ shared op built run name mem
  exact h.declared_of_root endpoint root mentions

theorem named (h : r.Sound doc) : ∀ e ∈ r.endpoints, ∃ source, e.name = Name.ofText source :=
  buildEndpoints_named h.endpoints

theorem file_path (h : r.Sound doc) {f : ModelFile} (file : f ∈ r.state.modelFiles) :
    ∃ n, f.path = modelPath r.target.mode r.fileStem n := by
  obtain ⟨e, mem, same⟩ := ModelFile.path_of_assemble file
  obtain ⟨n, _, _, _, path, _⟩ := h.entry ((ModelFile.mem_entries file).mp mem).1
  exact ⟨n, same.symm.trans path⟩

theorem located (h : r.Sound doc) {e : ModelEntry} (mem : e ∈ r.entries) :
    ∃ n, Keyed.find? e.name r.state.locations = some (modelPath r.target.mode r.fileStem n) ∧
      ∃ f ∈ r.state.modelFiles, f.path = modelPath r.target.mode r.fileStem n ∧
        f.Declares e.name := by
  obtain ⟨g, file, own⟩ := ModelFile.mem_of_assemble mem
  obtain ⟨path, found⟩ := exists_find?_locate file ⟨e, own, rfl⟩
  obtain ⟨f, other, same, declares⟩ := find?_locate found
  obtain ⟨n, at_path⟩ := h.file_path other
  rw [← same, at_path] at found
  exact ⟨n, found, f, other, at_path, declares⟩

theorem splits_of_external (h : r.Sound doc) {f : ModelFile} (file : f ∈ r.state.modelFiles)
    (mem : name ∈ f.external) : r.target.mode.splitsModels = true := by
  obtain ⟨⟨e, own, imported⟩, undeclared⟩ := ModelFile.mem_external.mp mem
  obtain ⟨d, listed, named⟩ := h.declared_of_import ((ModelFile.mem_entries file).mp own).1 imported
  cases splits : r.target.mode.splitsModels with
  | true => rfl
  | false =>
    obtain ⟨n, path⟩ := h.file_path file
    obtain ⟨m, _, _, _, other, _⟩ := h.entry listed
    have same : d.path = f.path := by
      rw [other, path]
      exact modelPath_shared splits _ _ _
    have here : d ∈ f.entries := (ModelFile.mem_entries file).mpr ⟨listed, congrArg _ same⟩
    exact absurd ⟨d, here, named⟩ undeclared

theorem external_located (h : r.Sound doc) {f : ModelFile} (file : f ∈ r.state.modelFiles)
    (mem : name ∈ f.external) : ∃ own other,
      f.path = "model" ++ "/" ++ stem own ++ ".ts" ∧
      Keyed.find? name r.state.locations = some ("model" ++ "/" ++ stem other ++ ".ts") := by
  have splits := h.splits_of_external file mem
  obtain ⟨⟨e, inside, imported⟩, _⟩ := ModelFile.mem_external.mp mem
  obtain ⟨d, listed, rfl⟩ := h.declared_of_import ((ModelFile.mem_entries file).mp inside).1 imported
  obtain ⟨own, path⟩ := h.file_path file
  obtain ⟨other, found, _⟩ := h.located listed
  rw [modelPath_split splits] at path found
  exact ⟨own, other, path, found⟩

end Sound

end Run

end TypedClients
