import TypedClients.Proofs.ModelFiles

namespace TypedClients

theorem flatMap_eq_of_single {α β : Type} {g : α → List β} {as : List α} {a : α}
    (distinct : as.Nodup) (mem : a ∈ as) (others : ∀ b ∈ as, b ≠ a → g b = []) :
    as.flatMap g = g a := by
  obtain ⟨before, after, rfl⟩ := List.append_of_mem mem
  have fresh : a ∉ before ++ after := (List.nodup_middle.mp distinct).notMem
  have left : before.flatMap g = [] := by
    rw [List.flatMap_eq_nil_iff]
    intro b listed
    refine others b (List.mem_append_left _ listed) ?_
    rintro rfl
    exact fresh (List.mem_append_left _ listed)
  have right : after.flatMap g = [] := by
    rw [List.flatMap_eq_nil_iff]
    intro b listed
    refine others b (List.mem_append_right _ (.tail _ listed)) ?_
    rintro rfl
    exact fresh (List.mem_append_right _ listed)
  rw [List.flatMap_append, List.flatMap_cons, left, right, List.append_nil, List.nil_append]

namespace ModelFile

/-- The entries of a list in files: each stands in one, with those whose paths differ from its own
in case alone, and within and among files paths ascend. -/
structure Files (entries : List ModelEntry) (files : List ModelFile) : Prop where
  perm : (files.flatMap ModelFile.entries).Perm entries
  shared : ∀ f ∈ files, ∀ g ∈ files, ∀ a ∈ f.entries, ∀ b ∈ g.entries,
    f = g ↔ Text.lower a.path = Text.lower b.path
  sorted : ∀ f ∈ files, f.entries.Pairwise fun a b =>
    a.path < b.path ∨ (a.path = b.path ∧ a.name ≤ b.name)
  headed : ∀ f ∈ files, ∃ first rest, f.entries = first :: rest ∧ f.path = first.path
  ordered : files.Pairwise fun f g => f.path < g.path

variable {entries others : List ModelEntry} {f : ModelFile} {path : String}

theorem assemble_headed (h : f ∈ assemble entries) :
    ∃ first rest, f.entries = first :: rest ∧ f.path = first.path := by
  obtain ⟨nonempty, same⟩ := mem_assemble.mp h
  generalize sharing entries f.path = shared at nonempty same
  have perm := List.mergeSort_perm shared ModelEntry.before
  unfold ofEntries at same
  cases sorted : shared.mergeSort ModelEntry.before with
  | nil =>
    rw [sorted] at perm
    exact absurd perm.symm.eq_nil nonempty
  | cons first rest =>
    rw [sorted] at same
    subst same
    exact ⟨first, rest, rfl, rfl⟩

theorem assemble_ordered (entries : List ModelEntry) :
    (assemble entries).Pairwise fun f g => f.path < g.path := by
  have sorted : (assemble entries).Pairwise fun f g => before f g = true := by
    unfold assemble
    apply List.pairwise_mergeSort
    · intro f g h first second
      simp only [before, Bool.not_eq_true', decide_eq_false_iff_not, String.not_lt] at *
      exact String.le_trans first second
    · intro f g
      simp only [before, Bool.or_eq_true, Bool.not_eq_true', decide_eq_false_iff_not,
        String.not_lt]
      exact String.le_total f.path g.path
  have apart := List.pairwise_map.mp (assemble_paths_nodup entries)
  refine (sorted.and apart).imp fun {f g} both => ?_
  obtain ⟨le, different⟩ := both
  simp only [before, Bool.not_eq_true', decide_eq_false_iff_not, String.not_lt] at le
  by_contra greater
  exact different (congrArg Text.lower (String.le_antisymm le (String.not_lt.mp greater)))

theorem assemble_nodup (entries : List ModelEntry) : (assemble entries).Nodup := by
  refine (assemble_ordered entries).imp fun {f g} less => ?_
  rintro rfl
  exact String.lt_irrefl _ less

theorem assemble_files (entries : List ModelEntry) : Files entries (assemble entries) where
  perm := assemble_perm entries
  shared f first g second a own b other := by
    have left := ((mem_entries first).mp own).2
    have right := ((mem_entries second).mp other).2
    rw [left, right]
    constructor
    · rintro rfl
      rfl
    · exact assemble_injective first second
  sorted f mem := by
    rw [(mem_assemble.mp mem).2]
    exact (ofEntries_sorted _).imp ModelEntry.before_iff.mp
  headed f mem := assemble_headed mem
  ordered := assemble_ordered entries

theorem assemble_congr (same : ∀ path, sharing entries path = [] ↔ sharing others path = [])
    (alike : ∀ path, ofEntries (sharing entries path) = ofEntries (sharing others path)) :
    assemble entries = assemble others := by
  have irrefl : Std.Irrefl fun f g : ModelFile => f.path < g.path := ⟨fun _ => String.lt_irrefl _⟩
  have antisymm : Std.Antisymm fun f g : ModelFile => f.path < g.path :=
    ⟨fun _ _ less more => absurd more (String.lt_asymm less)⟩
  apply List.Pairwise.eq_of_mem_iff (assemble_ordered entries) (assemble_ordered others)
  intro f
  rw [mem_assemble, mem_assemble, ne_eq, ne_eq, same, alike]

theorem ofEntries_perm (perm : others.Perm entries)
    (distinct : (entries.map fun e => (e.path, e.name)).Nodup) :
    ofEntries others = ofEntries entries := by
  have sorted : others.mergeSort ModelEntry.before = entries.mergeSort ModelEntry.before := by
    refine List.Perm.eq_of_pairwise ?_ (ofEntries_sorted others) (ofEntries_sorted entries)
      ((List.mergeSort_perm _ _).trans (perm.trans (List.mergeSort_perm _ _).symm))
    intro a b first second less more
    have a_mem : a ∈ entries := perm.mem_iff.mp ((List.mergeSort_perm _ _).mem_iff.mp first)
    have b_mem : b ∈ entries := (List.mergeSort_perm _ _).mem_iff.mp second
    refine List.inj_on_of_nodup_map distinct a_mem b_mem ?_
    rcases ModelEntry.before_iff.mp less with less | ⟨path, le⟩
    · rcases ModelEntry.before_iff.mp more with more | ⟨path, _⟩
      · exact absurd more (String.lt_asymm less)
      · exact absurd (path ▸ less) (String.lt_irrefl _)
    · rcases ModelEntry.before_iff.mp more with more | ⟨_, ge⟩
      · exact absurd (path ▸ more) (String.lt_irrefl _)
      · exact Prod.ext path (String.le_antisymm le ge)
  unfold ofEntries
  rw [sorted]

theorem assemble_of_perm (perm : others.Perm entries)
    (distinct : (entries.map fun e => (e.path, e.name)).Nodup) :
    assemble others = assemble entries := by
  have part (path : String) : (sharing others path).Perm (sharing entries path) := perm.filter _
  apply assemble_congr
  · intro path
    rw [← List.length_eq_zero_iff, ← List.length_eq_zero_iff, (part path).length_eq]
  · intro path
    exact ofEntries_perm (part path) ((List.filter_sublist.map _).nodup distinct)

theorem sharing_entries (file : f ∈ assemble entries) (path : String) : sharing f.entries path =
    if Text.lower f.path = Text.lower path then f.entries else [] := by
  split
  · rename_i same
    refine List.filter_eq_self.mpr fun e own => ?_
    rw [((mem_entries file).mp own).2, same]
    exact beq_self_eq_true _
  · rename_i other
    refine List.filter_eq_nil_iff.mpr fun e own => ?_
    rw [((mem_entries file).mp own).2]
    simpa using other

/-- The entries of all files that belong on a path are those of one file, in its order. -/
theorem sharing_assemble (entries : List ModelEntry) (path : String) :
    sharing ((assemble entries).flatMap ModelFile.entries) path =
      (sharing entries path).mergeSort ModelEntry.before := by
  have split_up : sharing ((assemble entries).flatMap ModelFile.entries) path =
      (assemble entries).flatMap fun f => sharing f.entries path := List.filter_flatMap ..
  rw [split_up]
  by_cases empty : sharing entries path = []
  · rw [empty, List.mergeSort_nil, List.flatMap_eq_nil_iff]
    intro f mem
    rw [sharing_entries mem, if_neg]
    intro same
    obtain ⟨nonempty, _⟩ := mem_assemble.mp mem
    unfold sharing at nonempty empty
    rw [same] at nonempty
    exact nonempty empty
  · obtain ⟨e, listed⟩ := List.exists_mem_of_ne_nil _ empty
    obtain ⟨own, case⟩ := mem_sharing.mp listed
    obtain ⟨f, mem, stands⟩ := mem_of_assemble own
    have here : Text.lower f.path = Text.lower path :=
      ((mem_entries mem).mp stands).2.symm.trans case
    have same : sharing entries f.path = sharing entries path := by
      unfold sharing
      rw [here]
    rw [flatMap_eq_of_single (assemble_nodup entries) mem, sharing_entries mem, if_pos here]
    · rw [(mem_assemble.mp mem).2, same]
      rfl
    · intro g listed different
      rw [sharing_entries listed, if_neg]
      exact fun again => different (assemble_injective listed mem (again.trans here.symm))

theorem assemble_again (entries : List ModelEntry) :
    assemble ((assemble entries).flatMap ModelFile.entries) = assemble entries := by
  apply assemble_congr
  · intro path
    rw [sharing_assemble, ← List.length_eq_zero_iff, List.length_mergeSort,
      List.length_eq_zero_iff]
  · intro path
    have settled := List.mergeSort_of_pairwise (ofEntries_sorted (sharing entries path))
    unfold ofEntries at settled ⊢
    rw [sharing_assemble]
    dsimp only at settled ⊢
    rw [settled]

/-- Where an entry goes does not depend on where it stood, and files taken apart are put together
again. -/
theorem assemble_canonical (entries : List ModelEntry) :
    Files entries (assemble entries) ∧
      (∀ others : List ModelEntry, others.Perm entries →
        (entries.map fun e => (e.path, e.name)).Nodup → assemble others = assemble entries) ∧
      assemble ((assemble entries).flatMap ModelFile.entries) = assemble entries :=
  ⟨assemble_files entries, fun _ => assemble_of_perm, assemble_again entries⟩

def barEntries : List ModelEntry :=
  [⟨"Foobar", "model/foobar.ts", [], "export type Foobar = {};", []⟩,
    ⟨"Pet", "model/pet.ts", [], "export type Pet = {};", []⟩,
    ⟨"FooBar", "model/fooBar.ts", [], "export type FooBar = {};", []⟩]

theorem assemble_canonical_bars :
    barEntries.reverse.Perm barEntries ∧ (barEntries.map fun e => (e.path, e.name)).Nodup ∧
      assemble barEntries.reverse = assemble barEntries ∧
      ∃ f ∈ assemble barEntries, barEntries[0] ∈ f.entries ∧ barEntries[2] ∈ f.entries := by
  have perm : barEntries.reverse.Perm barEntries := List.reverse_perm _
  have distinct : (barEntries.map fun e => (e.path, e.name)).Nodup := by decide
  obtain ⟨files, reordered, _⟩ := assemble_canonical barEntries
  obtain ⟨f, first, own⟩ := mem_of_assemble (show barEntries[0] ∈ barEntries by decide)
  obtain ⟨g, second, other⟩ := mem_of_assemble (show barEntries[2] ∈ barEntries by decide)
  have same := (files.shared f first g second _ own _ other).mpr (by decide)
  subst same
  exact ⟨perm, distinct, reordered _ perm distinct, f, first, own, other⟩

end ModelFile

end TypedClients
