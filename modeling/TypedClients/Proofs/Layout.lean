import TypedClients.Proofs.Units

namespace TypedClients

theorem stem_plain (name : String) : Plain (stem name) where
  nonempty := Name.camel_ne_empty name
  here same := by
    have dot : '.' ∈ (stem name).toList := by
      rw [same]
      decide
    exact Name.camel_markFree name '.' dot (.inr rfl)
  up same := by
    have dot : '.' ∈ (stem name).toList := by
      rw [same]
      decide
    exact Name.camel_markFree name '.' dot (.inr rfl)

theorem leads_congr {importer other specifier path : String}
    (h : directory importer = directory other) :
    Leads importer specifier path ↔ Leads other specifier path := by
  unfold Leads
  rw [h]

theorem leads_beside {importer module : String} (h : directory importer = directory (module ++ ".ts")) :
    Leads importer (relativeSpecifier importer (module ++ ".ts")) (module ++ ".ts") := by
  apply relativeSpecifier_leads
  rw [← h, unshared, sharedLead_self, List.drop_length]
  intro part none
  cases none

theorem leads_down {importer module : String} (plain : ∀ part ∈ directory importer, Plain part) :
    Leads importer (relativeSpecifier importer (module ++ ".ts")) (module ++ ".ts") :=
  relativeSpecifier_leads fun part mem => plain part (List.mem_of_mem_drop mem)

theorem OutputMode.splitsModels_iff {mode : OutputMode} :
    mode.splitsModels = true ↔ mode = .tagsSplit ∨ mode = .operations := by
  cases mode <;> decide

theorem OutputMode.splitsModels_eq_false_iff {mode : OutputMode} :
    mode.splitsModels = false ↔ mode = .single ∨ mode = .split ∨ mode = .tags := by
  cases mode <;> decide

theorem modelPath_module (mode : OutputMode) (fileStem name : String) :
    ∃ module, modelPath mode fileStem name = module ++ ".ts" := by
  cases mode with
  | single => exact ⟨_, rfl⟩
  | split => exact ⟨fileStem ++ ".schemas", by simp [modelPath, String.append_assoc]⟩
  | tags => exact ⟨fileStem ++ ".schemas", by simp [modelPath, String.append_assoc]⟩
  | tagsSplit => exact ⟨_, rfl⟩
  | operations => exact ⟨_, rfl⟩

theorem modelPath_shared {mode : OutputMode} (h : mode.splitsModels = false)
    (fileStem name other : String) : modelPath mode fileStem name = modelPath mode fileStem other := by
  cases mode with
  | single => rfl
  | split => rfl
  | tags => rfl
  | tagsSplit => cases h
  | operations => cases h

theorem modelPath_split {mode : OutputMode} (h : mode.splitsModels = true) (fileStem name : String) :
    modelPath mode fileStem name = "model" ++ "/" ++ stem name ++ ".ts" := by
  cases mode with
  | single => cases h
  | split => cases h
  | tags => cases h
  | tagsSplit => rfl
  | operations => rfl

theorem pathParts_model (name : String) :
    pathParts ("model" ++ "/" ++ stem name) = ["model", stem name] := by
  have model : pathParts "model" = ["model"] := pathParts_flat (by decide)
  rw [pathParts_slash, model, pathParts_flat (stem_flat name)]
  rfl

theorem directory_model (name : String) :
    directory ("model" ++ "/" ++ stem name ++ ".ts") = ["model"] := by
  rw [directory_append (by decide)]
  unfold directory
  rw [pathParts_model]
  rfl

theorem not_leads_astray {importer other d name own : String} (at_d : directory importer = [d])
    (plain : Plain d) (different : directory importer ≠ directory other)
    (here : other = "model" ++ "/" ++ stem own ++ ".ts") :
    ¬ Leads importer (relativeSpecifier other ("model" ++ "/" ++ stem name ++ ".ts"))
      ("model" ++ "/" ++ stem name ++ ".ts") := by
  intro given
  obtain ⟨_, module, same, walked⟩ := given
  have unique : "model" ++ "/" ++ stem name = module := String.append_left_inj _ |>.mp same
  subst here unique
  have file : moduleParts ("model" ++ "/" ++ stem name ++ ".ts") =
      directory ("model" ++ "/" ++ stem name ++ ".ts") ++ [stem name] := by
    rw [moduleParts_suffix, pathParts_model, directory_model]
    rfl
  have parts : pathParts (relativeSpecifier ("model" ++ "/" ++ stem own ++ ".ts")
      ("model" ++ "/" ++ stem name ++ ".ts")) = [".", stem name] := by
    rw [pathParts_relativeSpecifier _ file, directory_model, directory_model]
    rfl
  have target := stem_plain name
  rw [parts, pathParts_model, at_d] at walked
  have model : Plain "model" := ⟨by decide, by decide, by decide⟩
  simp only [walk, List.foldl_cons, List.foldl_nil, walkStep_plain plain, walkStep_plain target,
    walkStep_plain model] at walked
  have stays : walkStep [d] "." = [d] := rfl
  rw [stays] at walked
  have same : d = "model" := by simpa using walked
  rw [directory_model, at_d, same] at different
  exact different rfl

variable {endpoints : List Endpoint} {mode : OutputMode} {title fileStem : String} {u : OutputUnit}

theorem plain_singleton {d : String} (h : Plain d) : ∀ part ∈ [d], Plain part := by
  intro part mem
  have same := List.mem_singleton.mp mem
  rwa [same]

def OutputUnit.IsNamed (u : OutputUnit) : Prop := ∃ name, u.stem = TypedClients.stem name

theorem OutputUnit.IsNamed.flat (h : u.IsNamed) : '/' ∉ u.stem.toList := by
  obtain ⟨name, own⟩ := h
  rw [own]
  exact stem_flat name

theorem tag_unit (h : u ∈ planUnits endpoints .tags title fileStem) :
    u.IsNamed ∧ u.path = u.stem ++ ".ts" := by
  obtain ⟨g, _, rfl⟩ := List.mem_map.mp h
  have own : OutputUnit.stem ⟨g.label, stem g.label ++ ".ts", g.members⟩ = stem g.label :=
    OutputUnit.stem_top (stem_flat g.label)
  exact ⟨⟨g.label, own⟩, by rw [own]⟩

theorem tagSplit_unit (h : u ∈ planUnits endpoints .tagsSplit title fileStem) :
    u.IsNamed ∧ u.path = u.stem ++ "/" ++ u.stem ++ ".ts" := by
  obtain ⟨g, _, rfl⟩ := List.mem_map.mp h
  have own : OutputUnit.stem ⟨g.label, stem g.label ++ "/" ++ stem g.label ++ ".ts", g.members⟩ =
      stem g.label := OutputUnit.stem_inside (stem_flat g.label) (stem g.label)
  exact ⟨⟨g.label, own⟩, by rw [own]⟩

theorem operation_unit (named : ∀ e ∈ endpoints, ∃ source, e.name = Name.ofText source)
    (h : u ∈ planUnits endpoints .operations title fileStem) :
    u.IsNamed ∧ u.path = "endpoints" ++ "/" ++ u.stem ++ ".ts" := by
  obtain ⟨g, group, rfl⟩ := List.mem_map.mp h
  obtain ⟨e, mem, label, _⟩ := (KeyGroup.groupBy_partition _ _ endpoints).labelled g group
  obtain ⟨source, name⟩ := named e mem
  have camel : g.label = stem source := by
    rw [label, name]
    rfl
  have own : OutputUnit.stem ⟨g.label, "endpoints" ++ "/" ++ stem source ++ ".ts", g.members⟩ =
      stem source := OutputUnit.stem_inside (stem_flat source) "endpoints"
  rw [← camel] at own
  exact ⟨⟨source, own.trans camel⟩, congrArg (fun s => "endpoints" ++ "/" ++ s ++ ".ts") own.symm⟩

theorem unit_directory_split (named : ∀ e ∈ endpoints, ∃ source, e.name = Name.ofText source)
    (splits : mode.splitsModels = true) (h : u ∈ planUnits endpoints mode title fileStem) :
    ∃ d, directory u.path = [d] ∧ Plain d := by
  cases mode with
  | single => cases splits
  | split => cases splits
  | tags => cases splits
  | tagsSplit =>
    obtain ⟨⟨name, own⟩, path⟩ := tagSplit_unit h
    refine ⟨stem name, ?_, stem_plain name⟩
    rw [path, own, directory_append (by decide), directory_slash (stem_flat name),
      pathParts_flat (stem_flat name)]
  | operations =>
    obtain ⟨called, path⟩ := operation_unit named h
    refine ⟨"endpoints", ?_, ⟨by decide, by decide, by decide⟩⟩
    rw [path, directory_append (by decide), directory_slash called.flat, pathParts_flat (by decide)]

theorem endpoint_ne_model (left right : String) :
    Text.lower ("endpoints/" ++ left) ≠ Text.lower ("model/" ++ right) := by
  intro same
  have e : (Text.lower ("endpoints/" ++ left)).toList.head? = some 'e' :=
    Text.lower_head (by rw [String.toList_append]; rfl) (by decide) (by decide)
  have m : (Text.lower ("model/" ++ right)).toList.head? = some 'm' :=
    Text.lower_head (by rw [String.toList_append]; rfl) (by decide) (by decide)
  rw [same, m] at e
  cases e

theorem unit_leads (named : ∀ e ∈ endpoints, ∃ source, e.name = Name.ofText source)
    (h : u ∈ planUnits endpoints mode title fileStem) (name : String) :
    Leads u.path (relativeSpecifier u.path (modelPath mode fileStem name))
      (modelPath mode fileStem name) := by
  obtain ⟨module, model⟩ := modelPath_module mode fileStem name
  cases splits : mode.splitsModels with
  | true =>
    obtain ⟨d, place, plain⟩ := unit_directory_split named splits h
    rw [model]
    apply leads_down
    rw [place]
    exact plain_singleton plain
  | false =>
    have flat_suffix : '/' ∉ ".schemas.ts".toList := by decide
    cases mode with
    | single =>
      have same := List.mem_singleton.mp h
      rw [model]
      apply leads_beside
      rw [← model, same]
      rfl
    | split =>
      have same := List.mem_singleton.mp h
      rw [model]
      apply leads_beside
      rw [← model, same]
      show directory (fileStem ++ ".ts") = directory (fileStem ++ ".schemas.ts")
      rw [directory_append (by decide), directory_append flat_suffix]
    | tags =>
      obtain ⟨called, path⟩ := tag_unit h
      have top : directory u.path = [] := by
        rw [path, directory_append (by decide), directory_flat called.flat]
      rw [model]
      apply leads_down
      rw [top]
      intro part none
      cases none
    | tagsSplit => cases splits
    | operations => cases splits

end TypedClients
