import TypedClients.Proofs.Gathering
import TypedClients.Proofs.Imports

namespace TypedClients

def requests (ds : List Dependency) (specifier : String) : List Binding :=
  (under Dependency.specifier specifier ds).flatMap Dependency.bindings

/-- Each module once and each local name once in it, where they first came. A binding is the first
one asked for under its name, and it is type-only if all of them are. -/
structure Dependency.Merges (asked merged : List Dependency) : Prop where
  specifiers : merged.map Dependency.specifier = (asked.map Dependency.specifier).eraseDups
  names : ∀ d ∈ merged, d.bindings.map Binding.localName =
    ((requests asked d.specifier).map Binding.localName).eraseDups
  bindings : ∀ d ∈ merged, ∀ b ∈ d.bindings, ∃ first,
    (requests asked d.specifier).find? (fun r => r.localName = b.localName) = some first ∧
      b = { first with typeOnly := b.typeOnly }
  typeOnly : ∀ d ∈ merged, ∀ b ∈ d.bindings, b.typeOnly = true ↔
    ∀ r ∈ requests asked d.specifier, r.localName = b.localName → r.typeOnly = true

namespace Binding

def weaken (c b : Binding) : Binding := { c with typeOnly := c.typeOnly && b.typeOnly }

theorem joins : Joins localName id weaken where
  key_start _ := rfl
  key_join _ _ _ := rfl
  start_start _ := rfl
  start_join _ _ _ := rfl
  join_start _ _ _ := rfl
  join_join z b a _ _ := by simp [weaken, Bool.and_assoc]

theorem addBinding_eq (b : Binding) (bs : List Binding) :
    addBinding b bs = takeUp localName id weaken b bs := by
  induction bs with
  | nil => rfl
  | cons c rest ih =>
    rw [addBinding, takeUp, ih]
    rfl

theorem addBindings_nil (bs : List Binding) :
    addBindings [] bs = gather localName id weaken bs := by
  simp only [addBindings, gather, addBinding_eq]

theorem addBindings_append (known as bs : List Binding) :
    addBindings known (as ++ bs) = addBindings (addBindings known as) bs :=
  List.foldl_append

theorem joinAll_weaken (b : Binding) (rest : List Binding) :
    joinAll id weaken (b :: rest) =
      some { b with typeOnly := (b :: rest).all Binding.typeOnly } := by
  induction rest using List.reverseRecOn with
  | nil => simp [joinAll]
  | append_singleton earlier a ih =>
    rw [← List.cons_append, joinAll_concat ih]
    simp [weaken, Bool.and_assoc]

theorem mem_merged {b : Binding} {bs : List Binding} (mem : b ∈ addBindings [] bs) :
    (∃ first, bs.find? (fun r => r.localName = b.localName) = some first ∧
      b = { first with typeOnly := b.typeOnly }) ∧
      (b.typeOnly = true ↔ ∀ r ∈ bs, r.localName = b.localName → r.typeOnly = true) := by
  rw [addBindings_nil] at mem
  have joined := (joins.gathers bs).joined b mem
  cases asked : under localName b.localName bs with
  | nil =>
    rw [asked] at joined
    cases joined
  | cons first rest =>
    rw [asked, joinAll_weaken] at joined
    have same := (Option.some.inj joined).symm
    have found : bs.find? (fun r => r.localName = b.localName) = some first := by
      rw [← List.head?_filter]
      exact congrArg List.head? asked
    have listed (r : Binding) : r ∈ first :: rest ↔ r ∈ bs ∧ r.localName = b.localName := by
      rw [← asked]
      simp [under]
    have flag : b.typeOnly = (first :: rest).all Binding.typeOnly := congrArg Binding.typeOnly same
    refine ⟨⟨first, found, same.trans ?_⟩, ?_⟩
    · rw [← flag]
    · rw [flag, List.all_eq_true]
      simp only [listed, and_imp]

end Binding

namespace Dependency

def merged (d : Dependency) : Dependency := ⟨d.specifier, addBindings [] d.bindings⟩

def extend (e d : Dependency) : Dependency :=
  { e with bindings := addBindings e.bindings d.bindings }

theorem addBindings_merged (known more : List Binding) (settled : addBindings [] known = known) :
    addBindings known (addBindings [] more) = addBindings known more := by
  have staged := Binding.joins.gather_append_gather known more
  simp only [← Binding.addBindings_nil, Binding.addBindings_append, settled] at staged
  exact staged

theorem joins : Joins specifier merged extend where
  key_start _ := rfl
  key_join _ _ _ := rfl
  start_start d := by
    have twice := Binding.joins.gather_gather_append d.bindings []
    simp only [List.append_nil, ← Binding.addBindings_nil] at twice
    exact congrArg (Dependency.mk d.specifier) twice
  start_join e d settled := by
    have own : addBindings [] e.bindings = e.bindings := congrArg Dependency.bindings settled
    have twice := Binding.joins.gather_gather_append (e.bindings ++ d.bindings) []
    simp only [List.append_nil, ← Binding.addBindings_nil, Binding.addBindings_append, own] at twice
    exact congrArg (Dependency.mk e.specifier) twice
  join_start z d settled := by
    have own : addBindings [] z.bindings = z.bindings := congrArg Dependency.bindings settled
    exact congrArg (Dependency.mk z.specifier) (addBindings_merged _ _ own)
  join_join z e d settled also := by
    have own : addBindings [] z.bindings = z.bindings := congrArg Dependency.bindings settled
    have inner : addBindings [] e.bindings = e.bindings := congrArg Dependency.bindings also
    have staged := addBindings_merged z.bindings (e.bindings ++ d.bindings) own
    rw [Binding.addBindings_append, inner, Binding.addBindings_append] at staged
    exact congrArg (Dependency.mk z.specifier) staged

theorem addDependency_eq (d : Dependency) (ds : List Dependency) :
    addDependency d ds = takeUp specifier merged extend d ds := by
  induction ds with
  | nil => rfl
  | cons e rest ih =>
    rw [addDependency, takeUp, ih]
    rfl

theorem mergeDependencies_eq (ds : List Dependency) :
    mergeDependencies ds = gather specifier merged extend ds := by
  simp only [mergeDependencies, gather, addDependency_eq]

theorem joinAll_extend (d : Dependency) (rest : List Dependency) :
    joinAll merged extend (d :: rest) =
      some ⟨d.specifier, addBindings [] ((d :: rest).flatMap Dependency.bindings)⟩ := by
  induction rest using List.reverseRecOn with
  | nil => simp [joinAll, merged]
  | append_singleton earlier e ih =>
    rw [← List.cons_append, joinAll_concat ih, List.flatMap_append, Binding.addBindings_append]
    simp [extend]

theorem bindings_of_merge {d : Dependency} {ds : List Dependency} (mem : d ∈ mergeDependencies ds) :
    d.bindings = addBindings [] (requests ds d.specifier) := by
  rw [mergeDependencies_eq] at mem
  have joined := (joins.gathers ds).joined d mem
  unfold requests
  cases asked : under specifier d.specifier ds with
  | nil =>
    rw [asked] at joined
    cases joined
  | cons first rest =>
    rw [asked, joinAll_extend] at joined
    exact (congrArg Dependency.bindings (Option.some.inj joined)).symm

end Dependency

theorem merges_mergeDependencies (ds : List Dependency) :
    Dependency.Merges ds (mergeDependencies ds) where
  specifiers := by
    rw [Dependency.mergeDependencies_eq]
    exact (Dependency.joins.gathers ds).keys
  names d mem := by
    rw [Dependency.bindings_of_merge mem, Binding.addBindings_nil]
    exact (Binding.joins.gathers _).keys
  bindings d mem b listed := by
    rw [Dependency.bindings_of_merge mem] at listed
    exact (Binding.mem_merged listed).1
  typeOnly d mem b listed := by
    rw [Dependency.bindings_of_merge mem] at listed
    exact (Binding.mem_merged listed).2

/-- Merging binds what is asked for and nothing else, and merging in stages comes to the same as
merging at once. -/
theorem mergeDependencies_stages (xs ys : List Dependency) :
    Dependency.Merges xs (mergeDependencies xs) ∧
      (∀ specifier name, Imports (mergeDependencies xs) specifier name ↔
        Imports xs specifier name) ∧
      mergeDependencies (mergeDependencies xs ++ ys) = mergeDependencies (xs ++ ys) ∧
      mergeDependencies (xs ++ mergeDependencies ys) = mergeDependencies (xs ++ ys) := by
  refine ⟨merges_mergeDependencies xs, fun _ _ => imports_mergeDependencies, ?_, ?_⟩
  · simp only [Dependency.mergeDependencies_eq]
    exact Dependency.joins.gather_gather_append xs ys
  · simp only [Dependency.mergeDependencies_eq]
    exact Dependency.joins.gather_append_gather xs ys

example : mergeDependencies
    [⟨"./model", [{ name := "Pet", typeOnly := true }, { name := "z", alias? := some "zod" }]⟩,
      ⟨"./model", [{ name := "zod" }, { name := "Pet" }]⟩] =
    [⟨"./model", [{ name := "Pet" }, { name := "z", alias? := some "zod" }]⟩] := by
  decide

end TypedClients
