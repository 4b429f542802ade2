import TypedClients.Proofs.Generators
import TypedClients.Proofs.IndexFiles
import TypedClients.Proofs.Layout
import TypedClients.Proofs.LowerCase

namespace TypedClients

open Text (lower)

theorem lower_path_inside (directory stem : String) :
    lower (directory ++ "/" ++ stem ++ ".ts") =
      lower directory ++ "/" ++ lower (stem ++ ".ts") := by
  rw [String.append_assoc]
  exact Text.lower_slash directory (stem ++ ".ts")

theorem source_flat {s : String} (h : '/' ∉ s.toList) : '/' ∉ (lower (s ++ ".ts")).toList := by
  have suffix : '/' ∉ ".ts".toList := by decide
  have whole : '/' ∉ (s ++ ".ts").toList := by simpa [suffix] using h
  exact Text.lower_flat whole

theorem lower_source_eq_iff {s small : String} (h : ¬ Text.HasSigma small) :
    lower (s ++ ".ts") = small ++ ".ts" ↔ lower s = small :=
  Text.lower_append_eq_iff (by decide) (by decide) (by decide) h

theorem slash_inj {a b c d : String} (a_flat : '/' ∉ a.toList) (b_flat : '/' ∉ b.toList)
    (c_flat : '/' ∉ c.toList) (d_flat : '/' ∉ d.toList) :
    a ++ "/" ++ b = c ++ "/" ++ d ↔ a = c ∧ b = d := by
  constructor
  · intro same
    have parts := congrArg pathParts same
    rw [pathParts_slash, pathParts_slash, pathParts_flat a_flat, pathParts_flat b_flat,
      pathParts_flat c_flat, pathParts_flat d_flat] at parts
    simpa using parts
  · rintro ⟨rfl, rfl⟩
    rfl

theorem inside_ne_index (directory stem : String) :
    lower (directory ++ "/" ++ stem ++ ".ts") ≠ "index.ts" := by
  rw [lower_path_inside]
  intro same
  have slash : '/' ∈ "index.ts".toList := by
    rw [← same]
    simp
  revert slash
  decide

def Report.paths (r : Report) : List String :=
  r.files.map GeneratedFile.path ++ r.indexes.map IndexFile.path

def ModelEmitter.Places (em : ModelEmitter) : Prop :=
  ∀ c n s e, em.emit c n s = .ok e → e.path = c.path n

theorem ModelEmitter.Faithful.places {em : ModelEmitter} (h : em.Faithful) : em.Places :=
  fun c n s e run => (h.emit c n s e run).2.1

theorem RunState.planIndexes_paths (r : RunState) (written : List OutputUnit) :
    (r.planIndexes written).map IndexFile.path =
      if r.target.mode.splitsModels && !r.modelFiles.isEmpty then [modelIndex, "index.ts"]
      else ["index.ts"] := by
  unfold planIndexes
  dsimp only
  cases r.target.mode.splitsModels <;> cases r.modelFiles.isEmpty <;> rfl

namespace Run

variable {r : Run} {u v : OutputUnit}

def written (r : Run) : List OutputUnit :=
  ((r.state.renderUnits r.backend r.endpoints r.units {}).filterMap okUnit?).map Prod.fst

/-- The stems of two units differ, but their files do not: a capital sigma is small in one way at
the end of a word and in another before an extension. -/
def UnitsClash (r : Run) : Prop :=
  r.target.mode ≠ .tagsSplit ∧ ∃ u ∈ r.written, ∃ v ∈ r.written,
    lower u.stem ≠ lower v.stem ∧ lower (u.stem ++ ".ts") = lower (v.stem ++ ".ts")

/-- A file stands where an index goes. -/
def IndexTaken (r : Run) : Prop :=
  match r.target.mode with
  | .single | .split => r.written ≠ [] ∧ lower r.fileStem = "index"
  | .tags => ∃ u ∈ r.written, lower u.stem = "index"
  | .tagsSplit | .operations =>
    ∃ n ∈ r.reachable, lower (stem n) = "index" ∧ ∃ e, r.Emits n e

theorem mem_entries {e : ModelEntry} : e ∈ r.entries ↔ ∃ n ∈ r.reachable, r.Emits n e :=
  mem_emitModels

theorem Starts.named {registry : Registry} {doc : Document} (h : r.Starts registry doc) :
    ∀ e ∈ r.endpoints, ∃ source, e.name = Name.ofText source :=
  buildEndpoints_named h.endpoints

theorem written_sublist (r : Run) : r.written.Sublist r.units := by
  have units := r.state.renderUnits_units r.backend r.endpoints r.units {}
  have sub := okUnits_sublist (r.state.renderUnits r.backend r.endpoints r.units {})
  rwa [units] at sub

theorem written_unit (h : u ∈ r.written) : u ∈ r.units := r.written_sublist.mem h

theorem whole_unit (mode : r.target.mode = .single ∨ r.target.mode = .split) (h : u ∈ r.units) :
    u = ⟨r.title, r.fileStem ++ ".ts", List.range r.endpoints.length⟩ := by
  unfold units planUnits at h
  rcases mode with mode | mode
  · rw [mode] at h
    exact List.mem_singleton.mp h
  · rw [mode] at h
    exact List.mem_singleton.mp h

theorem files_paths (r : Run) : r.report.files.map GeneratedFile.path =
    (r.state.modelFiles.filter fun f => !r.state.isEmbedded f).map ModelFile.path ++
      r.written.map OutputUnit.path := by
  have pages : ∀ (units : List OutputUnit) (d : Deferred),
      let results := r.state.renderUnits r.backend r.endpoints units d
      ((results.filterMap okUnit?).map Prod.snd).map GeneratedFile.path =
        ((results.filterMap okUnit?).map Prod.fst).map OutputUnit.path := by
    intro units
    induction units with
    | nil => exact fun _ => rfl
    | cons u rest ih =>
      intro d
      dsimp only
      rw [RunState.renderUnits]
      generalize run : r.state.renderUnit r.backend u (u.endpoints r.endpoints) d = result
      obtain ⟨outcome, after⟩ := result
      cases outcome with
      | error e => exact ih _
      | ok f =>
        obtain ⟨c, renders, rfl⟩ := renderUnit_eq_ok run
        have path : (r.clientPage c).path = u.path := congrArg OutputUnit.path renders.unit
        simpa [okUnit?, path] using ih _
  have models : r.state.modelPages.map GeneratedFile.path =
      (r.state.modelFiles.filter fun f => !r.state.isEmbedded f).map ModelFile.path := by
    unfold RunState.modelPages
    rw [List.map_map]
    rfl
  have files : r.report.files = r.state.modelPages ++
      ((r.state.renderUnits r.backend r.endpoints r.units {}).filterMap okUnit?).map Prod.snd := rfl
  rw [files, List.map_append, models, pages]
  rfl

theorem files_lower_paths (r : Run) : r.report.files.map (fun f => lower f.path) =
    ((r.state.modelFiles.filter fun f => !r.state.isEmbedded f).map fun f => lower f.path) ++
      r.written.map fun u => lower u.path := by
  have paths := congrArg (List.map lower) r.files_paths
  simpa [Function.comp_def] using paths

section

variable (named : ∀ e ∈ r.endpoints, ∃ source, e.name = Name.ofText source)

include named

theorem unit_of_stem (first : u ∈ r.units) (second : v ∈ r.units)
    (h : lower u.stem = lower v.stem) : u = v := by
  have distinct := (planUnits_allotment named r.target.mode r.title r.fileStem).distinct
  exact List.inj_on_of_nodup_map distinct first second h

theorem written_nodup : r.written.Nodup := by
  have distinct := (planUnits_allotment named r.target.mode r.title r.fileStem).distinct
  exact r.written_sublist.nodup (List.Nodup.of_map _ distinct)

theorem lower_path_eq_iff (first : u ∈ r.units) (second : v ∈ r.units) (different : u ≠ v) :
    lower u.path = lower v.path ↔
      r.target.mode ≠ .tagsSplit ∧ lower (u.stem ++ ".ts") = lower (v.stem ++ ".ts") := by
  have stems : lower u.stem ≠ lower v.stem :=
    fun same => different (unit_of_stem named first second same)
  cases mode : r.target.mode with
  | single =>
    have one := (whole_unit (.inl mode) first).trans (whole_unit (.inl mode) second).symm
    exact absurd one different
  | split =>
    have one := (whole_unit (.inr mode) first).trans (whole_unit (.inr mode) second).symm
    exact absurd one different
  | tags =>
    rw [units, mode] at first second
    simp [(tag_unit first).2, (tag_unit second).2]
  | tagsSplit =>
    rw [units, mode] at first second
    obtain ⟨u_named, u_path⟩ := tagSplit_unit first
    obtain ⟨v_named, v_path⟩ := tagSplit_unit second
    rw [u_path, v_path, lower_path_inside, lower_path_inside,
      slash_inj (Text.lower_flat u_named.flat) (source_flat u_named.flat)
        (Text.lower_flat v_named.flat) (source_flat v_named.flat)]
    simp [stems]
  | operations =>
    rw [units, mode] at first second
    have u_path := (operation_unit named first).2
    have v_path := (operation_unit named second).2
    rw [u_path, v_path, lower_path_inside, lower_path_inside, String.append_right_inj]
    simp

/-- Units are kept apart by their stems, so only a sigma can bring their files together. -/
theorem written_paths_nodup : (r.written.map fun u => lower u.path).Nodup ↔ ¬ r.UnitsClash := by
  rw [List.nodup_map_iff_inj_on (written_nodup named)]
  constructor
  · rintro apart ⟨split, u, first, v, second, stems, same⟩
    have different : u ≠ v := by
      rintro rfl
      exact stems rfl
    have paths := (lower_path_eq_iff named (written_unit first) (written_unit second) different).mpr
      ⟨split, same⟩
    exact different (apart u first v second paths)
  · intro clear u first v second paths
    by_contra different
    obtain ⟨split, same⟩ :=
      (lower_path_eq_iff named (written_unit first) (written_unit second) different).mp paths
    have stems : lower u.stem ≠ lower v.stem :=
      fun eq => different (unit_of_stem named (written_unit first) (written_unit second) eq)
    exact clear ⟨split, u, first, v, second, stems, same⟩

/-- A file of models that a unit has the path of goes into the unit's file. -/
theorem files_paths_nodup :
    (r.report.files.map fun f => lower f.path).Nodup ↔ ¬ r.UnitsClash := by
  have models : ((r.state.modelFiles.filter fun f => !r.state.isEmbedded f).map
      fun f => lower f.path).Nodup :=
    (List.filter_sublist.map _).nodup (ModelFile.assemble_paths_nodup r.entries)
  have apart : ∀ p ∈ (r.state.modelFiles.filter fun f => !r.state.isEmbedded f).map
      fun f => lower f.path, ∀ q ∈ r.written.map fun u => lower u.path, p ≠ q := by
    intro p model q unit same
    obtain ⟨f, kept, rfl⟩ := List.mem_map.mp model
    obtain ⟨u, written, rfl⟩ := List.mem_map.mp unit
    have embedded : r.state.isEmbedded f = true :=
      List.any_eq_true.mpr ⟨u, written_unit written, by simp [sameFile, same]⟩
    simp [embedded] at kept
  rw [files_lower_paths, List.nodup_append, written_paths_nodup named]
  exact ⟨fun h => h.2.1, fun h => ⟨models, h, apart⟩⟩

theorem unit_inside (split : r.target.mode.splitsModels = true) (h : u ∈ r.units) :
    '/' ∉ u.stem.toList ∧
      ∃ d, (d = u.stem ∨ d = "endpoints") ∧ u.path = d ++ "/" ++ u.stem ++ ".ts" := by
  unfold units at h
  rcases OutputMode.splitsModels_iff.mp split with mode | mode
  · rw [mode] at h
    obtain ⟨called, path⟩ := tagSplit_unit h
    exact ⟨called.flat, u.stem, .inl rfl, path⟩
  · rw [mode] at h
    obtain ⟨called, path⟩ := operation_unit named h
    exact ⟨called.flat, "endpoints", .inr rfl, path⟩

theorem unit_ne_index (split : r.target.mode.splitsModels = true) (h : u ∈ r.units) :
    lower u.path ≠ "index.ts" ∧ lower u.path ≠ RunState.modelIndex := by
  obtain ⟨flat, d, place, path⟩ := unit_inside named split h
  have d_flat : '/' ∉ d.toList := by
    rcases place with rfl | rfl
    · exact flat
    · decide
  rw [path]
  refine ⟨inside_ne_index d u.stem, ?_⟩
  intro nested
  have index : RunState.modelIndex = "model" ++ "/" ++ ("index" ++ ".ts") := rfl
  rw [lower_path_inside, index, slash_inj (Text.lower_flat d_flat) (source_flat flat) (by decide)
    (by decide), lower_source_eq_iff (by decide)] at nested
  obtain ⟨first, second⟩ := nested
  rcases place with rfl | rfl
  · rw [second] at first
    exact absurd first (by decide)
  · exact absurd first (by decide)

end

theorem mem_files_paths {p : String} : p ∈ r.report.files.map (fun f => lower f.path) ↔
    (∃ f ∈ r.state.modelFiles, r.state.isEmbedded f = false ∧ lower f.path = p) ∨
      ∃ u ∈ r.written, lower u.path = p := by
  simp [files_lower_paths, and_assoc]

theorem schemas_ne_index (s : String) : lower (s ++ ".schemas.ts") ≠ "index.ts" := by
  have tail : 'Σ' ∉ ".schemas.ts".toList := by decide
  obtain ⟨small, whole⟩ := Text.lower_append_tail tail (by decide) s
  rw [whole]
  intro same
  have last : Text.hasTail ".schemas.ts" "index.ts" = true := by
    rw [← same]
    simp [Text.hasTail]
  revert last
  decide

theorem whole_at_index (mode : r.target.mode = .single ∨ r.target.mode = .split) :
    (∃ u ∈ r.written, lower u.path = "index.ts") ↔
      r.written ≠ [] ∧ lower r.fileStem = "index" := by
  have index : lower (r.fileStem ++ ".ts") = "index" ++ ".ts" ↔ lower r.fileStem = "index" :=
    lower_source_eq_iff (by decide)
  have path : ∀ u ∈ r.written, u.path = r.fileStem ++ ".ts" := by
    intro u unit
    rw [whole_unit mode (written_unit unit)]
  rw [← index]
  constructor
  · rintro ⟨u, unit, taken⟩
    rw [path u unit] at taken
    exact ⟨List.ne_nil_of_mem unit, taken⟩
  · rintro ⟨some_unit, taken⟩
    obtain ⟨u, unit⟩ := List.exists_mem_of_ne_nil _ some_unit
    rw [← path u unit] at taken
    exact ⟨u, unit, taken⟩

theorem tag_at_index (mode : r.target.mode = .tags) :
    (∃ u ∈ r.written, lower u.path = "index.ts") ↔ ∃ u ∈ r.written, lower u.stem = "index" := by
  apply exists_congr
  intro u
  apply and_congr_right
  intro unit
  have index : lower (u.stem ++ ".ts") = "index" ++ ".ts" ↔ lower u.stem = "index" :=
    lower_source_eq_iff (by decide)
  have planned := written_unit unit
  rw [units, mode] at planned
  rwa [(tag_unit planned).2]

theorem indexTaken_split (split : r.target.mode.splitsModels = true) :
    r.IndexTaken ↔ ∃ n ∈ r.reachable, lower (stem n) = "index" ∧ ∃ e, r.Emits n e := by
  unfold IndexTaken
  rcases OutputMode.splitsModels_iff.mp split with mode | mode
  · rw [mode]
  · rw [mode]

def indexPaths (r : Run) : List String :=
  if r.target.mode.splitsModels && !r.state.modelFiles.isEmpty then
    [RunState.modelIndex, "index.ts"]
  else ["index.ts"]

theorem lower_indexPaths (r : Run) : r.indexPaths.map lower = r.indexPaths := by
  have model : lower RunState.modelIndex = RunState.modelIndex := by decide
  have top : lower "index.ts" = "index.ts" := by decide
  unfold indexPaths
  split <;> simp [model, top]

theorem indexPaths_nodup (r : Run) : r.indexPaths.Nodup := by
  unfold indexPaths
  split <;> decide

section

variable (places : r.emitter.Places)

include places

theorem model_path_iff {p : String} :
    (∃ f ∈ r.state.modelFiles, lower f.path = p) ↔
      ∃ n ∈ r.reachable, (∃ e, r.Emits n e) ∧ lower (modelPath r.target.mode r.fileStem n) = p := by
  constructor
  · rintro ⟨f, file, path⟩
    obtain ⟨e, own, same⟩ := ModelFile.path_of_assemble file
    obtain ⟨n, reached, s, found, run⟩ := mem_entries.mp ((ModelFile.mem_entries file).mp own).1
    have lies : e.path = modelPath r.target.mode r.fileStem n := places _ n s e run
    refine ⟨n, reached, ⟨e, s, found, run⟩, ?_⟩
    rwa [← lies, same]
  · rintro ⟨n, reached, ⟨e, s, found, run⟩, path⟩
    have lies : e.path = modelPath r.target.mode r.fileStem n := places _ n s e run
    obtain ⟨f, file, own⟩ :=
      ModelFile.mem_of_assemble (mem_entries.mpr ⟨n, reached, s, found, run⟩)
    have same : lower e.path = lower f.path := ((ModelFile.mem_entries file).mp own).2
    rw [← lies, same] at path
    exact ⟨f, file, path⟩

theorem model_ne_index (unsplit : r.target.mode.splitsModels = false)
    {f : ModelFile} (file : f ∈ r.state.modelFiles) (own : r.state.isEmbedded f = false) :
    lower f.path ≠ "index.ts" := by
  obtain ⟨n, _, _, path⟩ := (model_path_iff places).mp ⟨f, file, rfl⟩
  rcases OutputMode.splitsModels_eq_false_iff.mp unsplit with mode | mode | mode
  · -- The models are in the file of the only unit.
    have unit : ⟨r.title, r.fileStem ++ ".ts", List.range r.endpoints.length⟩ ∈ r.units := by
      simp [units, mode, planUnits]
    have embedded : r.state.isEmbedded f = true := by
      rw [mode] at path
      exact List.any_eq_true.mpr ⟨_, unit, by simpa [sameFile, modelPath] using path⟩
    rw [embedded] at own
    cases own
  · rw [← path, mode]
    exact schemas_ne_index r.fileStem
  · rw [← path, mode]
    exact schemas_ne_index r.fileStem

theorem top_index_iff (unsplit : r.target.mode.splitsModels = false) :
    "index.ts" ∈ r.report.files.map (fun f => lower f.path) ↔ r.IndexTaken := by
  have units_only : "index.ts" ∈ r.report.files.map (fun f => lower f.path) ↔
      ∃ u ∈ r.written, lower u.path = "index.ts" := by
    rw [mem_files_paths]
    apply or_iff_right
    rintro ⟨f, file, own, path⟩
    exact model_ne_index places unsplit file own path
  rw [units_only]
  unfold IndexTaken
  rcases OutputMode.splitsModels_eq_false_iff.mp unsplit with mode | mode | mode
  · rw [mode]
    exact whole_at_index (.inl mode)
  · rw [mode]
    exact whole_at_index (.inr mode)
  · rw [mode]
    exact tag_at_index mode

variable (named : ∀ e ∈ r.endpoints, ∃ source, e.name = Name.ofText source)

include named

theorem model_index_iff (split : r.target.mode.splitsModels = true) :
    RunState.modelIndex ∈ r.report.files.map (fun f => lower f.path) ↔
      ∃ n ∈ r.reachable, lower (stem n) = "index" ∧ ∃ e, r.Emits n e := by
  have index : RunState.modelIndex = "model" ++ "/" ++ ("index" ++ ".ts") := rfl
  have path : ∀ n, lower (modelPath r.target.mode r.fileStem n) = RunState.modelIndex ↔
      lower (stem n) = "index" := by
    intro n
    have model : lower "model" = "model" := by decide
    rw [modelPath_split split, lower_path_inside, index, model, String.append_right_inj,
      lower_source_eq_iff (by decide)]
  have alone : ∀ f ∈ r.state.modelFiles, lower f.path = RunState.modelIndex →
      r.state.isEmbedded f = false := by
    intro f _ same
    apply List.any_eq_false.mpr
    intro u unit
    have apart := (unit_ne_index named split unit).2
    simpa [sameFile, same] using apart
  rw [mem_files_paths]
  constructor
  · rintro (⟨f, file, _, same⟩ | ⟨u, unit, same⟩)
    · obtain ⟨n, reached, emits, lies⟩ := (model_path_iff places).mp ⟨f, file, same⟩
      exact ⟨n, reached, (path n).mp lies, emits⟩
    · exact absurd same (unit_ne_index named split (written_unit unit)).2
  · rintro ⟨n, reached, stem_index, emits⟩
    obtain ⟨f, file, same⟩ :=
      (model_path_iff places).mpr ⟨n, reached, emits, (path n).mpr stem_index⟩
    exact .inl ⟨f, file, alone f file same, same⟩

theorem top_index_free (split : r.target.mode.splitsModels = true) :
    "index.ts" ∉ r.report.files.map fun f => lower f.path := by
  rw [mem_files_paths]
  rintro (⟨f, file, _, same⟩ | ⟨u, unit, same⟩)
  · obtain ⟨n, _, _, path⟩ := (model_path_iff places).mp ⟨f, file, same⟩
    rw [modelPath_split split] at path
    exact inside_ne_index "model" (stem n) path
  · exact (unit_ne_index named split (written_unit unit)).1 same

theorem file_at_index :
    (∃ p ∈ r.report.files.map (fun f => lower f.path), p ∈ r.indexPaths) ↔ r.IndexTaken := by
  cases split : r.target.mode.splitsModels with
  | false =>
    have top : r.indexPaths = ["index.ts"] := by simp [indexPaths, split]
    rw [top, ← top_index_iff places split]
    simp
  | true =>
    rw [indexTaken_split split, ← model_index_iff places named split]
    constructor
    · rintro ⟨p, file, index⟩
      have either : p = RunState.modelIndex ∨ p = "index.ts" := by
        unfold indexPaths at index
        split at index
        · simpa using index
        · exact .inr (by simpa using index)
      rcases either with rfl | rfl
      · exact file
      · exact absurd file (top_index_free places named split)
    · intro file
      obtain ⟨n, reached, _, emits⟩ := (model_index_iff places named split).mp file
      obtain ⟨f, model, _⟩ := (model_path_iff places).mpr ⟨n, reached, emits, rfl⟩
      have some_model : r.state.modelFiles.isEmpty = false := by
        rw [List.isEmpty_eq_false_iff]
        exact List.ne_nil_of_mem model
      exact ⟨_, file, by simp [indexPaths, split, some_model]⟩

theorem report_paths_nodup :
    (r.report.paths.map lower).Nodup ↔
      ¬ r.UnitsClash ∧ (r.target.index = true → ¬ r.IndexTaken) := by
  have paths : r.report.paths.map lower =
      r.report.files.map (fun f => lower f.path) ++
        if r.target.index then r.indexPaths else [] := by
    have indexes : r.report.indexes =
        if r.target.index then r.state.planIndexes r.written else [] := rfl
    have planned := r.state.planIndexes_paths r.written
    unfold Report.paths
    rw [List.map_append, indexes]
    congr 1
    · simp [Function.comp_def]
    · split
      · rw [planned]
        exact r.lower_indexPaths
      · rfl
  rw [paths, List.nodup_append, files_paths_nodup named]
  apply and_congr_right
  intro _
  cases r.target.index with
  | false => simp
  | true =>
    rw [← file_at_index places named]
    constructor
    · rintro ⟨_, apart⟩ _ ⟨p, file, index⟩
      exact apart p file p index rfl
    · intro free
      refine ⟨r.indexPaths_nodup, ?_⟩
      rintro p file q index rfl
      exact free rfl ⟨p, file, index⟩

end

theorem sigma_of_clash (h : r.UnitsClash) : ∃ u ∈ r.written, 'Σ' ∈ u.stem.toList := by
  obtain ⟨_, u, first, v, second, stems, same⟩ := h
  by_contra none
  have plain : ∀ w ∈ r.written, lower (w.stem ++ ".ts") = lower w.stem ++ lower ".ts" := by
    intro w unit
    have free : 'Σ' ∉ w.stem.toList := fun sigma => none ⟨w, unit, sigma⟩
    exact Text.lower_append free (by decide)
  rw [plain u first, plain v second, String.append_left_inj] at same
  exact stems same

end Run

theorem CommandLine.registry_places {id : String} {em : ModelEmitter}
    (h : registry.emitter id = .ok em) : em.Places :=
  (registry_emitter_faithful h).places

/-- What two outputs can have one path. Files of models are merged or go into the file of a unit;
an index is planned whatever file is in its place. -/
theorem Registry.run_paths_nodup {registry : Registry} {doc : Document} {target : Target}
    {report : Report} (h : registry.run doc target = .ok report)
    (placed : ∀ em, registry.emitter target.models.id = .ok em → em.Places) :
    (∀ id em, CommandLine.registry.emitter id = .ok em → em.Places) ∧
    ∃ r : Run, (r.Starts registry doc ∧ r.target = target ∧ report = r.report) ∧
      ((report.paths.map lower).Nodup ↔
        ¬ r.UnitsClash ∧ (target.index = true → ¬ r.IndexTaken)) ∧
      ((report.files.map fun f => lower f.path).Nodup ↔ ¬ r.UnitsClash) ∧
      (r.UnitsClash → ∃ u ∈ r.written, 'Σ' ∈ u.stem.toList) := by
  refine ⟨fun id em found => CommandLine.registry_places found, ?_⟩
  obtain ⟨r, starts, rfl, rfl⟩ := Run.run_eq_ok.mp h
  have places : r.emitter.Places := placed _ starts.emitter
  have all := Run.report_paths_nodup places starts.named
  have files := Run.files_paths_nodup starts.named
  exact ⟨r, ⟨starts, rfl, rfl⟩, all, files, Run.sigma_of_clash⟩

def indexed : Document where
  openapi := "3.0.3"
  info := { title := "Index", version := "1" }
  paths := [("/entries", { operations := [(.get, { operationId := some "listEntries" })] })]

def indexedRun (e : Endpoint) : Run :=
  ⟨Client.fetch, TypeScript.emitter, ⟨indexed, ⟨[]⟩⟩, {}, [e]⟩

theorem indexed_endpoints : ∃ e, buildEndpoints ⟨indexed, ⟨[]⟩⟩ {} = .ok [e] := ⟨_, rfl⟩

theorem indexedRun_written (e : Endpoint) :
    (indexedRun e).written = [⟨"Index", "index.ts", [0]⟩] := by
  have stem : (indexedRun e).fileStem = "index" := by
    show (Name.ofText "Index").camel = "index"
    decide
  have units : (indexedRun e).units = [⟨"Index", "index.ts", [0]⟩] := by
    unfold Run.units
    rw [stem]
    rfl
  rw [← units]
  rfl

theorem Registry.run_paths_nodup_indexed : ∃ (report : Report) (r : Run),
    CommandLine.registry.run indexed {} = .ok report ∧ report = r.report ∧
      report.paths = ["index.ts", "index.ts"] ∧ ¬ r.UnitsClash ∧ r.IndexTaken := by
  obtain ⟨e, built⟩ := indexed_endpoints
  have starts : (indexedRun e).Starts CommandLine.registry indexed :=
    { backend := rfl, emitter := rfl, resolved := rfl, endpoints := built, distinct := rfl }
  have run := Run.run_eq_ok.mpr ⟨_, starts, rfl, rfl⟩
  obtain ⟨_, r, ⟨begun, target, _⟩, distinct, _, sigma⟩ :=
    Registry.run_paths_nodup run fun em found => CommandLine.registry_places found
  cases begun.unique starts target
  have written := indexedRun_written e
  have models : (indexedRun e).state.modelFiles = [] := Run.modelFiles_nil rfl
  have paths : (indexedRun e).report.paths = ["index.ts", "index.ts"] := by
    have indexes := (indexedRun e).state.planIndexes_paths (indexedRun e).written
    rw [models] at indexes
    unfold Report.paths
    rw [Run.files_paths, written, models]
    exact congrArg (["index.ts"] ++ ·) indexes
  have clash : ¬ (indexedRun e).UnitsClash := by
    intro clash
    obtain ⟨u, unit, capital⟩ := sigma clash
    rw [written, List.mem_singleton] at unit
    rw [unit] at capital
    revert capital
    decide
  refine ⟨_, _, run, rfl, paths, clash, ?_⟩
  by_contra free
  have apart := distinct.mpr ⟨clash, fun _ => free⟩
  rw [paths] at apart
  revert apart
  decide

end TypedClients
