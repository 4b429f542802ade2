import TypedClients.Output.ModelFile
import TypedClients.Proofs.Keyed

namespace TypedClients

def Binds (bs : List Binding) (name : String) : Prop := ∃ b ∈ bs, b.localName = name

def Imports (ds : List Dependency) (specifier name : String) : Prop :=
  ∃ d ∈ ds, d.specifier = specifier ∧ Binds d.bindings name

variable {specifier name : String}

theorem binds_cons {b : Binding} {bs : List Binding} :
    Binds (b :: bs) name ↔ b.localName = name ∨ Binds bs name := by
  simp [Binds]

theorem imports_cons {d : Dependency} {ds : List Dependency} :
    Imports (d :: ds) specifier name ↔
      (d.specifier = specifier ∧ Binds d.bindings name) ∨ Imports ds specifier name := by
  simp [Imports]

theorem imports_append {ds es : List Dependency} :
    Imports (ds ++ es) specifier name ↔ Imports ds specifier name ∨ Imports es specifier name := by
  constructor
  · intro given
    obtain ⟨d, mem, found⟩ := given
    rcases List.mem_append.mp mem with mem | mem
    · exact .inl ⟨d, mem, found⟩
    · exact .inr ⟨d, mem, found⟩
  · intro given
    rcases given with ⟨d, mem, found⟩ | ⟨d, mem, found⟩
    · exact ⟨d, List.mem_append_left _ mem, found⟩
    · exact ⟨d, List.mem_append_right _ mem, found⟩

theorem binds_addBinding {b : Binding} {bs : List Binding} :
    Binds (addBinding b bs) name ↔ b.localName = name ∨ Binds bs name := by
  induction bs with
  | nil => rw [addBinding, binds_cons]
  | cons c rest ih =>
    rw [addBinding]
    split
    · rename_i same
      have kept : Binding.localName { c with typeOnly := c.typeOnly && b.typeOnly } = c.localName :=
        rfl
      rw [binds_cons, binds_cons, kept, same]
      tauto
    · rw [binds_cons, binds_cons, ih]
      tauto

theorem binds_addBindings {known more : List Binding} :
    Binds (addBindings known more) name ↔ Binds known name ∨ Binds more name := by
  induction more generalizing known with
  | nil =>
    have none : ¬ Binds [] name := by simp [Binds]
    show Binds known name ↔ _
    tauto
  | cons b rest ih =>
    show Binds (addBindings (addBinding b known) rest) name ↔ _
    rw [ih, binds_addBinding, binds_cons]
    tauto

theorem imports_addDependency {d : Dependency} {ds : List Dependency} :
    Imports (addDependency d ds) specifier name ↔
      (d.specifier = specifier ∧ Binds d.bindings name) ∨ Imports ds specifier name := by
  induction ds with
  | nil =>
    have nothing : ¬ Binds [] name := by simp [Binds]
    rw [addDependency, imports_cons, binds_addBindings]
    tauto
  | cons e rest ih =>
    rw [addDependency]
    split
    · rename_i same
      rw [imports_cons, imports_cons, binds_addBindings, same]
      tauto
    · rw [imports_cons, imports_cons, ih]
      tauto

/-- Merging neither drops nor invents an import. -/
theorem imports_mergeDependencies {ds : List Dependency} :
    Imports (mergeDependencies ds) specifier name ↔ Imports ds specifier name := by
  have started : ¬ Imports [] specifier name := by simp [Imports]
  suffices grown : ∀ acc : List Dependency,
      Imports (ds.foldl (fun acc d => addDependency d acc) acc) specifier name ↔
        Imports acc specifier name ∨ Imports ds specifier name by
    rw [mergeDependencies, grown []]
    tauto
  induction ds with
  | nil => simp [Imports]
  | cons d rest ih =>
    intro acc
    rw [List.foldl_cons, ih, imports_addDependency, imports_cons]
    tauto

theorem imports_filter_bindings {ds : List Dependency} :
    Imports (ds.filter fun d => !d.bindings.isEmpty) specifier name ↔
      Imports ds specifier name := by
  constructor
  · intro given
    obtain ⟨d, mem, found⟩ := given
    exact ⟨d, (List.mem_filter.mp mem).1, found⟩
  · intro given
    obtain ⟨d, mem, same, b, listed, named⟩ := given
    have nonempty : d.bindings.isEmpty = false := by
      cases given : d.bindings with
      | nil => rw [given] at listed; cases listed
      | cons => rfl
    refine ⟨d, List.mem_filter.mpr ⟨mem, ?_⟩, same, b, listed, named⟩
    rw [nonempty]
    rfl

theorem mem_located {locations : List (String × String)} {names : List String} {path : String} :
    (name, path) ∈ located locations names ↔
      name ∈ names ∧ Keyed.find? name locations = some path := by
  unfold located
  rw [List.mem_filterMap]
  constructor
  · intro given
    obtain ⟨n, mem, found⟩ := given
    obtain ⟨p, place, same⟩ := Option.map_eq_some_iff.mp found
    cases same
    exact ⟨mem, place⟩
  · intro given
    obtain ⟨mem, place⟩ := given
    exact ⟨name, mem, by rw [place]; rfl⟩

theorem imports_modelDependencies {importer : String} {typeOnly : Bool}
    {placed : List (String × String)} :
    Imports (modelDependencies importer typeOnly placed) specifier name ↔
      ∃ path, (name, path) ∈ placed ∧ specifier = relativeSpecifier importer path := by
  unfold modelDependencies
  constructor
  · intro given
    obtain ⟨d, mem, same, b, listed, named⟩ := given
    obtain ⟨s, _, rfl⟩ := List.mem_map.mp mem
    obtain ⟨⟨n, path⟩, kept, rfl⟩ := List.mem_map.mp listed
    obtain ⟨found, here⟩ := List.mem_filter.mp kept
    cases named
    refine ⟨path, found, ?_⟩
    rw [← same]
    exact (eq_of_beq here).symm
  · intro given
    obtain ⟨path, found, rfl⟩ := given
    have known : relativeSpecifier importer path ∈
        placed.map fun p => relativeSpecifier importer p.2 := List.mem_map.mpr ⟨_, found, rfl⟩
    refine ⟨_, List.mem_map.mpr ⟨_, Names.mem_ofList.mpr known, rfl⟩, rfl, ?_⟩
    have kept : (name, path) ∈ placed.filter fun p =>
        relativeSpecifier importer p.2 == relativeSpecifier importer path :=
      List.mem_filter.mpr ⟨found, beq_self_eq_true _⟩
    exact ⟨_, List.mem_map.mpr ⟨_, kept, rfl⟩, rfl⟩

end TypedClients
