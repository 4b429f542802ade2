import TypedClients.Proofs.Lines
import TypedClients.Proofs.ModelFiles
import TypedClients.Proofs.Run

namespace TypedClients

variable {existing : Option String} {lines more : List String} {line : String}

def Reads (raws : List String) (line : String) : Prop := ∃ raw ∈ raws, Text.trim raw = line

theorem reads_append {raws others : List String} :
    Reads (raws ++ others) line ↔ Reads raws line ∨ Reads others line := by
  simp only [Reads, List.mem_append, or_and_right, exists_or]

def existingLines (existing : Option String) : List String := (existing.map Text.lines).getD []

theorem existingLines_flat (h : line ∈ existingLines existing) : '\n' ∉ line.toList := by
  cases existing with
  | none => cases h
  | some text => exact Text.lines_flat h

theorem mem_mergedLines : line ∈ mergedLines existing lines ↔
    line ≠ "" ∧ (Reads (existingLines existing) line ∨ Reads lines line) := by
  unfold mergedLines
  rw [Names.mem_ofList, List.mem_filter, List.mem_map, bne_iff_ne, and_comm, ← reads_append]
  rfl

theorem mergedLines_trimmed (h : line ∈ mergedLines existing lines) : Text.trim line = line := by
  obtain ⟨_, read⟩ := mem_mergedLines.mp h
  obtain ⟨raw, _, rfl⟩ := reads_append.mpr read
  exact Text.trim_trim raw

theorem mergedLines_flat (flat : ∀ line ∈ lines, '\n' ∉ line.toList)
    (h : line ∈ mergedLines existing lines) : '\n' ∉ line.toList := by
  obtain ⟨_, ⟨raw, old, rfl⟩ | ⟨raw, new, rfl⟩⟩ := mem_mergedLines.mp h
  · exact fun inside => existingLines_flat old (Text.mem_of_mem_trim inside)
  · exact fun inside => flat raw new (Text.mem_of_mem_trim inside)

theorem mergedLines_last (h : line ∈ mergedLines existing lines) :
    '\r' ∉ line.toList.getLast? := by
  rw [← mergedLines_trimmed h]
  intro last
  have blank : Text.isBlank '\r' = true := by decide
  rw [Text.trim_last last] at blank
  cases blank

theorem reads_mergeIndex (flat : ∀ line ∈ lines, '\n' ∉ line.toList) (h : line ≠ "") :
    Reads (existingLines (some (mergeIndex existing lines))) line ↔
      line ∈ mergedLines existing lines := by
  show Reads (Text.lines (Text.join "\n" (mergedLines existing lines) ++ "\n")) line ↔ _
  cases all : mergedLines existing lines with
  | nil =>
    -- The file of an empty index is one empty line.
    have bare : Text.lines (Text.join "\n" [] ++ "\n") = [""] := rfl
    have blank : Text.trim "" = "" := rfl
    simp [Reads, bare, blank, Ne.symm h]
  | cons first rest =>
    rw [← all, Text.lines_join (by rw [all]; exact List.cons_ne_nil _ _)
      (fun _ mem => mergedLines_flat flat mem) (fun _ mem => mergedLines_last mem)]
    constructor
    · rintro ⟨raw, mem, rfl⟩
      rw [mergedLines_trimmed mem]
      exact mem
    · exact fun mem => ⟨line, mem, mergedLines_trimmed mem⟩

theorem mergeIndex_congr {other : Option String}
    (h : ∀ line ≠ "", Reads (existingLines existing) line ∨ Reads lines line ↔
      Reads (existingLines other) line ∨ Reads more line) :
    mergeIndex existing lines = mergeIndex other more := by
  have same : mergedLines existing lines = mergedLines other more := by
    apply Names.ofList_congr
    intro line
    have mem : line ∈ mergedLines existing lines ↔ line ∈ mergedLines other more := by
      rw [mem_mergedLines, mem_mergedLines]
      exact and_congr_right (h line)
    simpa only [mergedLines, Names.mem_ofList] using mem
  unfold mergeIndex
  rw [same]

/-- Lines that are merged in turns are merged at once. -/
theorem mergeIndex_mergeIndex (flat : ∀ line ∈ lines, '\n' ∉ line.toList) :
    mergeIndex (some (mergeIndex existing lines)) more = mergeIndex existing (lines ++ more) := by
  apply mergeIndex_congr
  intro line nonempty
  rw [reads_mergeIndex flat nonempty, mem_mergedLines, and_iff_right nonempty, reads_append,
    or_assoc]

example : mergeIndex (some (mergeIndex none ["b\na"])) ["b\na"] ≠ mergeIndex none ["b\na"] := by
  decide

theorem mergeIndex_append_self (existing : Option String) (lines : List String) :
    mergeIndex existing (lines ++ lines) = mergeIndex existing lines := by
  apply mergeIndex_congr
  intro line _
  rw [reads_append, or_self]

theorem relativeSpecifier_flat {importer path : String} (flat : '\n' ∉ path.toList) :
    '\n' ∉ (relativeSpecifier importer path).toList := by
  have parts : ∀ shared, '\n' ∉ (Text.join "/" ((moduleParts path).drop shared)).toList := by
    intro shared inside
    rcases Text.mem_join inside with slash | ⟨part, mem, inside⟩
    · revert slash
      decide
    · exact flat (Text.mem_beforeTail (Text.mem_splitAt (List.mem_of_mem_drop mem) inside))
  unfold relativeSpecifier
  dsimp only
  split
  · rw [String.toList_append, List.mem_append]
    rintro (here | inside)
    · revert here
      decide
    · exact parts _ inside
  · rw [String.toList_append, List.mem_append]
    rintro (ups | inside)
    · rcases Text.mem_join ups with none | ⟨up, mem, inside⟩
      · cases none
      · rw [List.eq_of_mem_replicate mem] at inside
        revert inside
        decide
    · exact parts _ inside

theorem exportLine_flat {index path : String} (flat : '\n' ∉ path.toList) :
    '\n' ∉ (exportLine index path).toList := by
  unfold exportLine
  dsimp only
  rw [String.toList_append, String.toList_append, List.mem_append, List.mem_append]
  rintro ((lead | inside) | tail)
  · revert lead
    decide
  · exact relativeSpecifier_flat flat (Text.mem_beforeTail inside)
  · revert tail
    decide

theorem RunState.renderUnits_units (r : RunState) (b : Backend) (endpoints : List Endpoint)
    (units : List OutputUnit) (d : Deferred) :
    (r.renderUnits b endpoints units d).map Prod.fst = units := by
  induction units generalizing d with
  | nil => rfl
  | cons u rest ih =>
    rw [RunState.renderUnits, List.map_cons, ih]

theorem okUnits_sublist (results : List (OutputUnit × Except GenerationError GeneratedFile)) :
    ((results.filterMap okUnit?).map Prod.fst).Sublist (results.map Prod.fst) := by
  induction results with
  | nil => exact .slnil
  | cons first rest ih =>
    obtain ⟨u, outcome⟩ := first
    cases outcome with
    | error e => exact ih.cons u
    | ok f => exact ih.cons_cons u

namespace Run

variable {r : Run} {index : IndexFile}

/-- What an index can say: it exports units, models and the index of the models. -/
def Exported (r : Run) (path : String) : Prop :=
  path = RunState.modelIndex ∨ (∃ u ∈ r.units, u.path = path) ∨ ∃ e ∈ r.entries, e.path = path

theorem exported_model {f : ModelFile} (h : f ∈ r.state.modelFiles) : r.Exported f.path := by
  obtain ⟨e, inside, path⟩ := ModelFile.path_of_assemble h
  exact .inr (.inr ⟨e, ((ModelFile.mem_entries h).mp inside).1, path⟩)

theorem report_index_lines (h : index ∈ r.report.indexes) :
    ∀ line ∈ index.lines, ∃ path, r.Exported path ∧ line = exportLine index.path path := by
  let results := r.state.renderUnits r.backend r.endpoints r.units {}
  let written := (results.filterMap okUnit?).map Prod.fst
  have units : ∀ line ∈ written.map (fun u => exportLine "index.ts" u.path),
      ∃ path, r.Exported path ∧ line = exportLine "index.ts" path := by
    intro line mem
    obtain ⟨u, ok, rfl⟩ := List.mem_map.mp mem
    have unit := (okUnits_sublist results).mem ok
    rw [RunState.renderUnits_units] at unit
    exact ⟨u.path, .inr (.inl ⟨u, unit, rfl⟩), rfl⟩
  have planned : index ∈ if r.target.index then r.state.planIndexes written else [] := h
  split at planned
  · unfold RunState.planIndexes at planned
    dsimp only at planned
    split at planned
    · split at planned
      · have same := List.mem_singleton.mp planned
        subst same
        exact units
      · rcases List.mem_cons.mp planned with rfl | later
        · intro line mem
          obtain ⟨f, file, rfl⟩ := List.mem_map.mp mem
          exact ⟨f.path, exported_model file, rfl⟩
        · have same := List.mem_singleton.mp later
          subst same
          intro line mem
          rcases List.mem_append.mp mem with unit | nested
          · exact units line unit
          · exact ⟨_, .inl rfl, List.mem_singleton.mp nested⟩
    · have same := List.mem_singleton.mp planned
      subst same
      intro line mem
      rcases List.mem_append.mp mem with unit | model
      · exact units line unit
      · obtain ⟨f, kept, rfl⟩ := List.mem_map.mp model
        exact ⟨f.path, exported_model (List.mem_filter.mp kept).1, rfl⟩
  · cases planned

theorem report_indexes_flat (flat : ∀ path, r.Exported path → '\n' ∉ path.toList) :
    ∀ index ∈ r.report.indexes, ∀ line ∈ index.lines, '\n' ∉ line.toList := by
  intro index listed line mem
  obtain ⟨path, exported, rfl⟩ := report_index_lines listed line mem
  exact exportLine_flat (flat path exported)

end Run

end TypedClients
