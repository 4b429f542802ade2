import Mathlib.Data.List.Perm.Basic
import TypedClients.Proofs.Imports

namespace TypedClients

variable {entries : List ModelEntry} {files : List ModelFile} {f g : ModelFile} {name : String}

theorem flatMap_filter_perm {α : Type} (key : α → String) (as : List α) {keys : List String}
    (distinct : keys.Nodup) (covered : ∀ a ∈ as, key a ∈ keys) :
    (keys.flatMap fun k => as.filter fun a => key a == k).Perm as := by
  induction keys generalizing as with
  | nil =>
    have empty : as = [] := List.eq_nil_iff_forall_not_mem.mpr fun a mem =>
      List.not_mem_nil (covered a mem)
    rw [empty]
    exact .refl _
  | cons k rest ih =>
    obtain ⟨fresh, distinct⟩ := List.nodup_cons.mp distinct
    have others := ih (as.filter fun a => !(key a == k)) distinct <| by
      intro a mem
      obtain ⟨listed, other⟩ := List.mem_filter.mp mem
      rcases List.mem_cons.mp (covered a listed) with same | later
      · simp [same] at other
      · exact later
    have untouched : ∀ q ∈ rest, (as.filter fun a => !(key a == k)).filter (fun a => key a == q) =
        as.filter fun a => key a == q := by
      intro q mem
      rw [List.filter_filter]
      apply List.filter_congr
      intro a _
      cases here : key a == q with
      | false => simp
      | true =>
        have different : q ≠ k := by
          intro same
          subst same
          exact fresh mem
        rw [eq_of_beq here]
        simp [different]
    rw [List.flatMap_congr untouched] at others
    rw [List.flatMap_cons]
    exact (others.append_left _).trans (List.filter_append_perm _ _)

theorem lt_of_pairwise {α : Type} {R : α → α → Prop} {as : List α} {a b : α}
    (sorted : as.Pairwise R) {i j : Nat} (at_i : as[i]? = some a) (at_j : as[j]? = some b)
    (different : a ≠ b) (back : ¬ R b a) : i < j := by
  obtain ⟨hi, rfl⟩ := List.getElem?_eq_some_iff.mp at_i
  obtain ⟨hj, rfl⟩ := List.getElem?_eq_some_iff.mp at_j
  by_contra behind
  rcases Nat.lt_or_eq_of_le (Nat.le_of_not_lt behind) with earlier | rfl
  · exact back (List.pairwise_iff_getElem.mp sorted j i hj hi earlier)
  · exact different rfl

namespace ModelEntry

variable {a b c : ModelEntry}

theorem before_iff : a.before b ↔ a.path < b.path ∨ (a.path = b.path ∧ a.name ≤ b.name) := by
  unfold before
  split
  · rename_i same
    have irrefl : ¬ a.path < b.path := same ▸ String.lt_irrefl _
    rw [Bool.not_eq_true', decide_eq_false_iff_not, String.not_lt]
    constructor
    · exact fun le => .inr ⟨same, le⟩
    · exact fun given => (given.resolve_left irrefl).2
  · rename_i different
    rw [decide_eq_true_iff]
    constructor
    · exact .inl
    · exact fun given => given.resolve_right fun both => different both.1

theorem before_trans (first : a.before b) (second : b.before c) : a.before c := by
  rw [before_iff] at first second ⊢
  rcases first with less | ⟨same, le⟩
  · rcases second with more | ⟨same, _⟩
    · exact .inl (String.lt_trans less more)
    · exact .inl (same ▸ less)
  · rcases second with more | ⟨again, more⟩
    · exact .inl (same ▸ more)
    · exact .inr ⟨same.trans again, String.le_trans le more⟩

theorem before_total (a b : ModelEntry) : a.before b ∨ b.before a := by
  rw [before_iff, before_iff]
  by_cases same : a.path = b.path
  · rcases String.le_total a.name b.name with le | le
    · exact .inl (.inr ⟨same, le⟩)
    · exact .inr (.inr ⟨same.symm, le⟩)
  · by_cases less : a.path < b.path
    · exact .inl (.inl less)
    · by_cases more : b.path < a.path
      · exact .inr (.inl more)
      · exact absurd (String.le_antisymm (String.not_lt.mp more) (String.not_lt.mp less)) same

end ModelEntry

namespace ModelFile

theorem ofEntries_sorted (entries : List ModelEntry) :
    (ofEntries entries).entries.Pairwise fun a b => a.before b := by
  apply List.pairwise_mergeSort
  · exact fun a b c => ModelEntry.before_trans
  · intro a b
    rw [Bool.or_eq_true]
    exact ModelEntry.before_total a b

theorem ofEntries_entries (entries : List ModelEntry) :
    (ofEntries entries).entries.Perm entries := List.mergeSort_perm _ _

theorem ofEntries_path {entries : List ModelEntry} (h : entries ≠ []) :
    ∃ e ∈ entries, (ofEntries entries).path = e.path := by
  have perm := ofEntries_entries entries
  unfold ofEntries at perm ⊢
  dsimp only at perm ⊢
  generalize entries.mergeSort ModelEntry.before = sorted at perm
  cases sorted with
  | nil => exact absurd perm.symm.eq_nil h
  | cons e rest => exact ⟨e, perm.mem_iff.mp List.mem_cons_self, rfl⟩

/-- The entries that go into the file at a path. -/
def sharing (entries : List ModelEntry) (path : String) : List ModelEntry :=
  entries.filter fun e => Text.lower e.path == Text.lower path

theorem mem_sharing {path : String} {e : ModelEntry} :
    e ∈ sharing entries path ↔ e ∈ entries ∧ Text.lower e.path = Text.lower path := by
  simp [sharing]

theorem sharing_ofEntries {e : ModelEntry} (h : e ∈ entries) :
    sharing entries e.path ≠ [] ∧
      sharing entries (ofEntries (sharing entries e.path)).path = sharing entries e.path := by
  have own : e ∈ sharing entries e.path := mem_sharing.mpr ⟨h, rfl⟩
  have nonempty : sharing entries e.path ≠ [] := List.ne_nil_of_mem own
  obtain ⟨d, listed, path⟩ := ofEntries_path nonempty
  have case : Text.lower d.path = Text.lower e.path := (mem_sharing.mp listed).2
  refine ⟨nonempty, ?_⟩
  rw [path]
  unfold sharing
  rw [case]

theorem mem_assemble :
    f ∈ assemble entries ↔ sharing entries f.path ≠ [] ∧ f = ofEntries (sharing entries f.path) := by
  unfold assemble
  rw [(List.mergeSort_perm _ _).mem_iff, List.mem_map]
  constructor
  · intro given
    obtain ⟨key, known, rfl⟩ := given
    obtain ⟨e, mem, rfl⟩ := List.mem_map.mp (Names.mem_ofList.mp known)
    obtain ⟨nonempty, same⟩ := sharing_ofEntries mem
    show sharing entries (ofEntries (sharing entries e.path)).path ≠ [] ∧
      ofEntries (sharing entries e.path) =
        ofEntries (sharing entries (ofEntries (sharing entries e.path)).path)
    rw [same]
    exact ⟨nonempty, rfl⟩
  · intro given
    obtain ⟨nonempty, same⟩ := given
    obtain ⟨e, mem⟩ := List.exists_mem_of_ne_nil _ nonempty
    obtain ⟨listed, path⟩ := mem_sharing.mp mem
    have key : Text.lower f.path ∈ entries.map fun e => Text.lower e.path :=
      List.mem_map.mpr ⟨e, listed, path⟩
    exact ⟨_, Names.mem_ofList.mpr key, same.symm⟩

theorem mem_entries (h : f ∈ assemble entries) {e : ModelEntry} :
    e ∈ f.entries ↔ e ∈ entries ∧ Text.lower e.path = Text.lower f.path := by
  obtain ⟨_, same⟩ := mem_assemble.mp h
  have perm := ofEntries_entries (sharing entries f.path)
  rw [← same] at perm
  rw [perm.mem_iff, mem_sharing]

theorem path_of_assemble (h : f ∈ assemble entries) : ∃ e ∈ f.entries, e.path = f.path := by
  obtain ⟨nonempty, same⟩ := mem_assemble.mp h
  obtain ⟨e, listed, path⟩ := ofEntries_path nonempty
  rw [← same] at path
  have own : e ∈ f.entries := (mem_entries h).mpr (mem_sharing.mp listed)
  exact ⟨e, own, path.symm⟩

theorem assemble_shared {path : String} (shared : ∀ e ∈ entries, e.path = path)
    (h : f ∈ assemble entries) : f.entries.Perm entries ∧
      ∀ (i j : Nat) (d e : ModelEntry), f.entries[i]? = some d → f.entries[j]? = some e →
        d.name < e.name → i < j := by
  obtain ⟨own, listed, same_path⟩ := path_of_assemble h
  have file_path : f.path = path := by
    rw [← same_path]
    exact shared own ((mem_entries h).mp listed).1
  have all : sharing entries f.path = entries := by
    apply List.filter_eq_self.mpr
    intro e mem
    rw [shared e mem, file_path]
    exact beq_self_eq_true _
  have same := (mem_assemble.mp h).2
  rw [all] at same
  have perm : f.entries.Perm entries := same ▸ ofEntries_entries entries
  have sorted : f.entries.Pairwise fun a b => a.before b := same ▸ ofEntries_sorted entries
  refine ⟨perm, fun i j d e at_i at_j less => lt_of_pairwise sorted at_i at_j ?_ ?_⟩
  · rintro rfl
    exact String.lt_irrefl _ less
  · have d_path : d.path = path := shared d (perm.mem_iff.mp (List.mem_of_getElem? at_i))
    have e_path : e.path = path := shared e (perm.mem_iff.mp (List.mem_of_getElem? at_j))
    rw [ModelEntry.before_iff, d_path, e_path]
    rintro (lower | ⟨_, le⟩)
    · exact String.lt_irrefl _ lower
    · exact String.not_lt.mpr le less

/-- Two files have paths that differ in more than case. -/
theorem assemble_injective (first : f ∈ assemble entries) (second : g ∈ assemble entries)
    (h : Text.lower f.path = Text.lower g.path) : f = g := by
  have shared : sharing entries f.path = sharing entries g.path := by
    unfold sharing
    rw [h]
  rw [(mem_assemble.mp first).2, (mem_assemble.mp second).2, shared]

theorem mem_of_assemble {e : ModelEntry} (h : e ∈ entries) :
    ∃ f ∈ assemble entries, e ∈ f.entries := by
  obtain ⟨nonempty, same⟩ := sharing_ofEntries h
  have file : ofEntries (sharing entries e.path) ∈ assemble entries := by
    rw [mem_assemble, same]
    exact ⟨nonempty, rfl⟩
  have own : e ∈ sharing entries e.path := mem_sharing.mpr ⟨h, rfl⟩
  exact ⟨_, file, (ofEntries_entries _).mem_iff.mpr own⟩

/-- Grouping into files loses no entry and doubles none. -/
theorem assemble_perm (entries : List ModelEntry) :
    ((assemble entries).flatMap ModelFile.entries).Perm entries := by
  unfold assemble
  have files := List.mergeSort_perm ((Names.ofList (entries.map fun e => Text.lower e.path)).map
    fun key => ofEntries (entries.filter fun e => Text.lower e.path == key)) before
  refine (files.flatMap_right _).trans ?_
  rw [List.flatMap_map]
  have grouped := flatMap_filter_perm (fun e : ModelEntry => Text.lower e.path) entries
    ((Names.ofList_increasing _).imp fun less => String.ne_of_lt less)
    fun e mem => Names.mem_ofList.mpr (List.mem_map.mpr ⟨e, mem, rfl⟩)
  refine (List.Perm.flatMap_left _ fun key _ => ?_).trans grouped
  exact ofEntries_entries _

theorem assemble_paths (entries : List ModelEntry) :
    ((assemble entries).map fun f => Text.lower f.path).Perm
      (Names.ofList (entries.map fun e => Text.lower e.path)) := by
  unfold assemble
  have sorted := List.mergeSort_perm ((Names.ofList (entries.map fun e => Text.lower e.path)).map
    fun key => ofEntries (entries.filter fun e => Text.lower e.path == key)) before
  refine (sorted.map _).trans ?_
  rw [List.map_map]
  have keys : ∀ key ∈ Names.ofList (entries.map fun e => Text.lower e.path),
      Text.lower (ofEntries (entries.filter fun e => Text.lower e.path == key)).path = key := by
    intro key mem
    obtain ⟨e, listed, rfl⟩ := List.mem_map.mp (Names.mem_ofList.mp mem)
    have nonempty : entries.filter (fun d => Text.lower d.path == Text.lower e.path) ≠ [] :=
      List.ne_nil_of_mem (List.mem_filter.mpr ⟨listed, by simp⟩)
    obtain ⟨d, kept, path⟩ := ofEntries_path nonempty
    simpa [path] using (List.mem_filter.mp kept).2
  exact .of_eq ((List.map_congr_left keys).trans (List.map_id _))

theorem assemble_paths_nodup (entries : List ModelEntry) :
    ((assemble entries).map fun f => Text.lower f.path).Nodup := by
  have increasing := Names.ofList_increasing (entries.map fun e => Text.lower e.path)
  have distinct := increasing.imp String.ne_of_lt
  exact (assemble_paths entries).nodup_iff.mpr distinct

def Declares (f : ModelFile) (name : String) : Prop := ∃ e ∈ f.entries, e.name = name

theorem mem_external :
    name ∈ f.external ↔ (∃ e ∈ f.entries, name ∈ e.imports) ∧ ¬ f.Declares name := by
  have declared : f.defined.contains name = true ↔ f.Declares name := by
    unfold defined Declares
    rw [List.contains_iff_mem, Names.mem_ofList, List.mem_map]
  unfold external
  rw [Names.mem_ofList, List.mem_filter, List.mem_flatMap, Bool.not_eq_true', ← declared,
    Bool.not_eq_true]

end ModelFile

theorem find?_locate {path : String} (h : Keyed.find? name (locate files) = some path) :
    ∃ f ∈ files, f.path = path ∧ f.Declares name := by
  have listed := (Keyed.mem_insertAll (Keyed.mem_of_find? h)).resolve_left List.not_mem_nil
  obtain ⟨f, file, mem⟩ := List.mem_flatMap.mp listed
  obtain ⟨e, entry, same⟩ := List.mem_map.mp mem
  cases same
  exact ⟨f, file, rfl, e, entry, rfl⟩

theorem exists_find?_locate (file : f ∈ files) (h : f.Declares name) :
    ∃ path, Keyed.find? name (locate files) = some path := by
  obtain ⟨e, entry, named⟩ := h
  apply Keyed.find?_of_mem_keys
  unfold locate Keyed.ofList
  rw [Keyed.keys_insertAll]
  right
  have listed : (e.name, f.path) ∈ files.flatMap fun f => f.entries.map fun e => (e.name, f.path) :=
    List.mem_flatMap.mpr ⟨f, file, List.mem_map.mpr ⟨e, entry, rfl⟩⟩
  exact List.mem_map.mpr ⟨_, listed, named⟩

end TypedClients
