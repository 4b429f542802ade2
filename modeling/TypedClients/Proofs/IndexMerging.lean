import TypedClients.Proofs.Writes

namespace TypedClients

variable {existing : Option String} {lines others : List String} {line : String}

namespace Text

theorem trim_dropReturn (cs : List Char) :
    trim (String.ofList (dropReturn cs)) = trim (String.ofList cs) := by
  unfold dropReturn
  split
  · rename_i last
    obtain ⟨start, rfl⟩ := List.getLast?_eq_some_iff.mp (beq_iff_eq.mp last)
    have blank : isBlank '\r' = true := by decide
    apply String.toList_inj.mp
    rw [trim_toList, trim_toList, String.toList_ofList, String.toList_ofList,
      List.dropLast_concat, trimStart, trimStart, List.dropWhile_append, trimEnd_eq, trimEnd_eq]
    split
    · rename_i none
      rw [List.isEmpty_iff.mp none]
      simp [blank]
    · rw [List.rdropWhile_concat_pos _ _ _ blank]
  · rfl

end Text

theorem reads_lines (nonempty : line ≠ "") (text : String) :
    Reads (Text.lines text) line ↔ Reads (Text.splitAt '\n' text) line := by
  have blank : Text.trim (String.ofList []) = "" := rfl
  have inside : ∀ cs part, Reads ((Text.linesFrom part cs).map String.ofList) line ↔
      Reads ((Text.partsFrom (· == '\n') part cs).map String.ofList) line := by
    intro cs
    induction cs with
    | nil =>
      intro part
      cases part with
      | nil => simp [Text.linesFrom, Text.partsFrom, Reads, blank, Ne.symm nonempty]
      | cons c rest => rfl
    | cons c rest ih =>
      intro part
      rw [Text.linesFrom, Text.partsFrom]
      by_cases feed : c = '\n'
      · rw [if_pos feed, if_pos (beq_iff_eq.mpr feed)]
        have first : ∀ cs others, Reads ((cs :: others).map String.ofList) line ↔
            Text.trim (String.ofList cs) = line ∨ Reads (others.map String.ofList) line := by
          intro cs others
          simp [Reads]
        rw [first, first, ih, Text.trim_dropReturn]
      · rw [if_neg feed, if_neg (fun same => feed (beq_iff_eq.mp same))]
        exact ih (c :: part)
  exact inside text.toList []

def existingRows (existing : Option String) : List String :=
  (existing.map (Text.splitAt '\n')).getD []

theorem mem_mergedLines_iff : line ∈ mergedLines existing lines ↔
    line ≠ "" ∧ ∃ raw ∈ existingRows existing ++ lines, Text.trim raw = line := by
  rw [mem_mergedLines]
  refine and_congr_right fun nonempty => ?_
  show _ ↔ Reads _ line
  rw [reads_append]
  refine or_congr_left ?_
  cases existing with
  | none => exact Iff.rfl
  | some text => exact reads_lines nonempty text

theorem mergeIndex_of_mem_iff (same : ∀ line, line ∈ others ↔ line ∈ lines) :
    mergeIndex existing others = mergeIndex existing lines := by
  apply mergeIndex_congr
  intro line _
  simp only [Reads, same]

theorem Edit.applyAll_merge {all : List (List String)}
    (flat : ∀ lines ∈ all, ∀ line ∈ lines, '\n' ∉ line.toList) (existing : Option String) :
    applyAll (all.map .merge) existing =
      if all = [] then existing else some (mergeIndex existing all.flatten) := by
  induction all generalizing existing with
  | nil => rfl
  | cons lines rest ih =>
    have later := ih (fun more listed => flat more (List.mem_cons_of_mem _ listed))
      (some (mergeIndex existing lines))
    have now : applyAll ((lines :: rest).map .merge) existing =
      applyAll (rest.map .merge) (some (mergeIndex existing lines)) := rfl
    rw [now, later, if_neg (List.cons_ne_nil _ _), List.flatten_cons]
    split
    · rename_i none
      rw [none, List.flatten_nil, List.append_nil]
    · rw [mergeIndex_mergeIndex (flat lines List.mem_cons_self)]

section

variable {κ : Type} [DecidableEq κ] (place : String → κ) (root : String) (k : κ)

def indexesAt (indexes : List IndexFile) : List IndexFile :=
  indexes.filter fun index => place (Path.join root index.path) = k

theorem editsAt_indexWrites (indexes : List IndexFile) :
    Write.editsAt place k (indexes.map (Disk.indexWrite root true)) =
      ((indexesAt place root k indexes).map (·.lines)).map .merge := by
  unfold Write.editsAt indexesAt
  rw [List.filter_map, List.map_map, List.map_map]
  rfl

theorem applyAll_indexWrites {indexes : List IndexFile}
    (flat : ∀ index ∈ indexes, ∀ line ∈ index.lines, '\n' ∉ line.toList)
    (files : κ → Option String) :
    Write.applyAll place (indexes.map (Disk.indexWrite root true)) files k =
      if indexesAt place root k indexes = [] then files k
      else some (mergeIndex (files k) ((indexesAt place root k indexes).flatMap (·.lines))) := by
  rw [Write.applyAll_at, editsAt_indexWrites, Edit.applyAll_merge]
  · simp only [List.map_eq_nil_iff]
    rfl
  · intro lines listed
    obtain ⟨index, there, rfl⟩ := List.mem_map.mp listed
    exact flat index (List.mem_filter.mp there).1

/-- The texts that are there in the end do not depend on the order of the writes. -/
theorem applyAll_indexWrites_perm {indexes others : List IndexFile} (perm : indexes.Perm others)
    (flat : ∀ index ∈ indexes, ∀ line ∈ index.lines, '\n' ∉ line.toList)
    (files : κ → Option String) :
    Write.applyAll place (others.map (Disk.indexWrite root true)) files =
      Write.applyAll place (indexes.map (Disk.indexWrite root true)) files := by
  funext k
  have here : (indexesAt place root k others).Perm (indexesAt place root k indexes) :=
    perm.symm.filter _
  rw [applyAll_indexWrites place root k flat, applyAll_indexWrites place root k fun index listed =>
    flat index (perm.mem_iff.mpr listed)]
  by_cases none : indexesAt place root k indexes = []
  · rw [if_pos none, if_pos (List.nil_perm.mp (none ▸ here).symm)]
  · have some_index : indexesAt place root k others ≠ [] :=
      fun empty => none (List.nil_perm.mp (empty ▸ here))
    rw [if_neg none, if_neg some_index]
    refine congrArg some (mergeIndex_of_mem_iff fun line => ?_)
    exact (here.flatMap_right _).mem_iff

end

/-- An index holds what it held and what was merged into it, each line once and in order; neither
the order nor the number of the merges makes a difference. -/
theorem mergeIndex_accumulates (existing : Option String) {lines : List String}
    (flat : ∀ line ∈ lines, '\n' ∉ line.toList) :
    (∃ index : List String, mergeIndex existing lines = Text.join "\n" index ++ "\n" ∧
      index.Pairwise (· < ·) ∧ ∀ line, line ∈ index ↔
        line ≠ "" ∧ ∃ raw ∈ existingRows existing ++ lines, Text.trim raw = line) ∧
    (∀ others : List String, (∀ line, line ∈ others ↔ line ∈ lines) →
      mergeIndex existing others = mergeIndex existing lines) ∧
    (∀ more, mergeIndex (some (mergeIndex existing lines)) more =
      mergeIndex existing (lines ++ more)) ∧
    (∀ (κ : Type) [DecidableEq κ] (place : String → κ) (root : String)
      (indexes others : List IndexFile) (files : κ → Option String),
      (∀ index ∈ indexes, ∀ line ∈ index.lines, '\n' ∉ line.toList) → indexes.Perm others →
      ∃ files', (Disk.ofPlaces place).writeIndexes root true indexes files = (.ok (), files') ∧
        (Disk.ofPlaces place).writeIndexes root true others files = (.ok (), files') ∧
        ∀ k, files' k = if indexesAt place root k indexes = [] then files k else
          some (mergeIndex (files k) ((indexesAt place root k indexes).flatMap (·.lines)))) := by
  have increasing : (mergedLines existing lines).Pairwise (· < ·) := Names.ofList_increasing _
  refine ⟨⟨mergedLines existing lines, rfl, increasing, fun _ => mem_mergedLines_iff⟩,
    fun _ same => mergeIndex_of_mem_iff same, fun _ => mergeIndex_mergeIndex flat, ?_⟩
  intro κ _ place root indexes others files unbroken perm
  refine ⟨Write.applyAll place (indexes.map (Disk.indexWrite root true)) files, ?_, ?_, ?_⟩
  · exact Disk.writeIndexes_performs place root true indexes files
  · rw [← applyAll_indexWrites_perm place root perm unbroken]
    exact Disk.writeIndexes_performs place root true others files
  · exact fun k => applyAll_indexWrites place root k unbroken files

def petIndex : IndexFile := ⟨"index.ts", ["pet"]⟩

def orderIndex : IndexFile := ⟨"index.ts", ["order", "pet"]⟩

theorem mergeIndex_accumulates_store :
    (∀ line ∈ ["pet", "order"], '\n' ∉ line.toList) ∧
      mergeIndex (some (mergeIndex (some " store\r\n\n") ["pet", "order"])) ["pet"] =
        "order\npet\nstore\n" ∧
      ∃ files, (Disk.ofPlaces id).writeIndexes "api" true [petIndex, orderIndex] (fun _ => none) =
          (.ok (), files) ∧
        (Disk.ofPlaces id).writeIndexes "api" true [orderIndex, petIndex] (fun _ => none) =
          (.ok (), files) ∧
        files (Path.join "api" "index.ts") = some "order\npet\n" := by
  have flat : ∀ line ∈ ["pet", "order"], '\n' ∉ line.toList := by decide
  obtain ⟨_, _, turns, disk⟩ := mergeIndex_accumulates (some " store\r\n\n") flat
  obtain ⟨files, written, again, there⟩ := disk String id "api" [petIndex, orderIndex]
    [orderIndex, petIndex] (fun _ => none) (by decide) (.swap _ _ _)
  refine ⟨flat, ?_, files, written, again, ?_⟩
  · rw [turns]
    decide
  · rw [there]
    decide

end TypedClients
