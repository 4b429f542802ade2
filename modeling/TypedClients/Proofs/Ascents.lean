import TypedClients.Proofs.Specifiers

namespace TypedClients

theorem walk_plain {parts : List String} (plain : ∀ part ∈ parts, Plain part)
    (place : List String) : walk place parts = parts.reverse ++ place := by
  induction parts generalizing place with
  | nil => rfl
  | cons part rest ih =>
    have first := walkStep_plain (plain part List.mem_cons_self) place
    have later := ih fun d mem => plain d (List.mem_cons_of_mem _ mem)
    calc walk place (part :: rest) = walk (walkStep place part) rest := rfl
      _ = rest.reverse ++ (part :: place) := by rw [first, later]
      _ = (part :: rest).reverse ++ place := by simp

theorem up_mem_walk {place : List String} (h : ".." ∈ place) (parts : List String) :
    ".." ∈ walk place parts := by
  induction parts generalizing place with
  | nil => exact h
  | cons part rest ih =>
    apply ih
    unfold walkStep
    split
    · exact h
    · split
      · cases place with
        | nil => cases h
        | cons last above =>
          dsimp only
          split
          · exact List.mem_cons_of_mem _ h
          · rename_i inside
            rcases List.mem_cons.mp h with same | mem
            · exact absurd same.symm inside
            · exact mem
      · exact List.mem_cons_of_mem _ h

theorem drop_count_suffix_walk (place parts : List String) :
    place.drop (parts.count "..") <:+ walk place parts := by
  induction parts generalizing place with
  | nil => exact List.suffix_rfl
  | cons part rest ih =>
    refine List.IsSuffix.trans ?_ (ih (walkStep place part))
    generalize ups : rest.count ".." = n
    unfold walkStep
    split
    · rename_i stays
      have other : part ≠ ".." := by
        rcases stays with rfl | rfl <;> decide
      have same : (part :: rest).count ".." = n := (List.count_cons_of_ne other).trans ups
      exact same ▸ List.suffix_rfl
    · split
      · rename_i up
        rw [up, List.count_cons_self, ups]
        cases place with
        | nil => exact List.nil_suffix
        | cons last above =>
          dsimp only
          split
          -- Outside the root a step up makes the place longer.
          · exact List.drop_suffix_drop_left (".." :: last :: above) (by omega : n ≤ n + 2)
          · exact List.suffix_rfl
      · rename_i other
        rw [List.count_cons_of_ne other, ups]
        exact List.drop_suffix_drop_left (part :: place) (Nat.le_succ n)

theorem le_sharedLead {n : Nat} : ∀ {as bs : List String}, n ≤ as.length → as.take n <+: bs →
    n ≤ sharedLead as bs
  | [], _, bound, _ => Nat.le_trans bound (Nat.zero_le _)
  | a :: as, bs, bound, lead => by
    cases n with
    | zero => exact Nat.zero_le _
    | succ n =>
      obtain ⟨tail, rfl⟩ := lead
      have rest : n ≤ sharedLead as (as.take n ++ tail) :=
        le_sharedLead (Nat.le_of_succ_le_succ bound) (List.prefix_append _ _)
      simp only [List.take_succ_cons, List.cons_append, sharedLead, if_true]
      omega

/-- From one place to another one goes up at least to the last directory on the way to both. -/
theorem ups_le {here there parts : List String} (h : walk here.reverse parts = there.reverse) :
    here.length - sharedLead here there ≤ parts.count ".." := by
  have kept := drop_count_suffix_walk here.reverse parts
  rw [h, List.drop_reverse, List.reverse_suffix] at kept
  have shared := le_sharedLead (Nat.sub_le _ _) kept
  omega

theorem sharedLead_dropLast {here there : List String} (away : ¬ there <+: here) :
    sharedLead here there ≤ sharedLead here there.dropLast := by
  apply le_sharedLead (sharedLead_le here there).1
  have lead : here.take (sharedLead here there) <+: there := by
    rw [take_sharedLead]
    exact List.take_prefix _ _
  have way := List.take_prefix (sharedLead here there) here
  generalize here.take (sharedLead here there) = shared at lead way ⊢
  obtain ⟨tail, rfl⟩ := lead
  have more : tail ≠ [] := by
    rintro rfl
    rw [List.append_nil] at away
    exact away way
  rw [List.dropLast_append_of_ne_nil more]
  exact List.prefix_append _ _

structure Visible (part : String) : Prop where
  nonempty : part ≠ ""
  dotless : part.toList.head? ≠ some '.'

instance (part : String) : Decidable (Visible part) :=
  decidable_of_iff (part ≠ "" ∧ part.toList.head? ≠ some '.')
    ⟨fun h => ⟨h.1, h.2⟩, fun h => ⟨h.nonempty, h.dotless⟩⟩

theorem Visible.plain {part : String} (h : Visible part) : Plain part where
  nonempty := h.nonempty
  here := by
    rintro rfl
    exact h.dotless (by decide)
  up := by
    rintro rfl
    exact h.dotless (by decide)

/-- The specifier of a module ends in a name; one that ends in dots is for a directory. -/
def EndsInName (specifier : String) : Prop :=
  ∃ way last, pathParts specifier = way ++ [last] ∧ Plain last

theorem IsStem.plain {module path : String} (stem : IsStem module path)
    (visible : ∀ part ∈ pathParts path, Visible part) : ∀ part ∈ pathParts module, Plain part := by
  rcases stem with rfl | ⟨rfl, _⟩
  · have flat : '/' ∉ ".ts".toList := by decide
    obtain ⟨parts, last, whole, longer⟩ := pathParts_append flat module
    rw [longer] at visible
    rw [whole]
    intro part mem
    rcases List.mem_append.mp mem with directory | file
    · exact (visible part (List.mem_append_left _ directory)).plain
    · have named := (visible (last ++ ".ts") (by simp)).dotless
      cases List.mem_singleton.mp file
      rw [String.toList_append] at named
      refine Visible.plain ⟨?_, ?_⟩
      · rintro rfl
        exact named (by decide)
      · intro dot
        rw [List.head?_append, dot] at named
        exact named rfl
  · exact fun part mem => (visible part mem).plain

section

variable {importer path module : String}

theorem count_relativeSpecifier (plain : ∀ part ∈ moduleParts path, Plain part) :
    (pathParts (relativeSpecifier importer path)).count ".." =
      (unshared (directory importer) (directory path)).length := by
  obtain ⟨last, file⟩ := exists_moduleParts path
  have down : ((directory path).drop (sharedLead (directory importer) (directory path)) ++
      [last]).count ".." = 0 := by
    rw [List.count_eq_zero]
    intro mem
    refine (plain ".." ?_).up rfl
    rw [file]
    rcases List.mem_append.mp mem with below | own
    · exact List.mem_append_left _ (List.mem_of_mem_drop below)
    · exact List.mem_append_right _ own
  rw [pathParts_relativeSpecifier importer file, wayBetween, List.append_assoc, List.count_append,
    down, ascent]
  split
  · rename_i none
    rw [none]
    decide
  · rw [List.count_replicate_self, Nat.add_zero]

theorem endsInName_relativeSpecifier (plain : ∀ part ∈ moduleParts path, Plain part) :
    EndsInName (relativeSpecifier importer path) := by
  obtain ⟨last, file⟩ := exists_moduleParts path
  refine ⟨_, last, pathParts_relativeSpecifier importer file, plain last ?_⟩
  rw [file]
  exact List.mem_append_right _ (List.mem_singleton_self last)

theorem ups_le_of_specifier {other : String}
    (leads : walk (directory importer).reverse (pathParts other) = (pathParts module).reverse)
    (names : EndsInName other ∨ ¬ pathParts module <+: directory importer) :
    (unshared (directory importer) (directory module)).length ≤ (pathParts other).count ".." := by
  have size : (unshared (directory importer) (directory module)).length =
      (directory importer).length - sharedLead (directory importer) (pathParts module).dropLast :=
    List.length_drop
  rw [size]
  rcases names with ⟨way, last, parts, plain⟩ | away
  · rw [parts, walk_append] at leads
    have arrive : last :: walk (directory importer).reverse way = (pathParts module).reverse :=
      (walkStep_plain plain _).symm.trans leads
    have before : walk (directory importer).reverse way =
        (pathParts module).dropLast.reverse := by
      rw [← List.reverse_reverse (pathParts module), ← arrive]
      simp
    have fewer := ups_le before
    rw [parts, List.count_append]
    omega
  · have fewer := ups_le leads
    have same := sharedLead_dropLast away
    omega

end

/-- In a file of an output, the specifier of another file is relative, ends in the name of the module
and leads there without leaving the output on the way, in as few steps up as there can be. Where a
directory on the way to the importer is called like the module, fewer steps would lead to that
directory and no longer name the module in it. -/
theorem relativeSpecifier_shortest {importer path : String}
    (inside : ∀ part ∈ pathParts importer, Visible part)
    (visible : ∀ part ∈ pathParts path, Visible part) :
    ∃ module, IsStem module path ∧
      (Text.hasLead "./" (relativeSpecifier importer path) = true ∨
        Text.hasLead "../" (relativeSpecifier importer path) = true) ∧
      EndsInName (relativeSpecifier importer path) ∧
      walk (directory importer).reverse (pathParts (relativeSpecifier importer path)) =
        (pathParts module).reverse ∧
      (∀ way, way <+: pathParts (relativeSpecifier importer path) →
        ".." ∉ walk (directory importer).reverse way) ∧
      ∀ other, walk (directory importer).reverse (pathParts other) = (pathParts module).reverse →
        EndsInName other ∨ ¬ pathParts module <+: directory importer →
        (pathParts (relativeSpecifier importer path)).count ".." ≤
          (pathParts other).count ".." := by
  obtain ⟨module, stem, parts⟩ := exists_stem path
  have plain : ∀ part ∈ moduleParts path, Plain part := by
    rw [parts]
    exact stem.plain visible
  have directories : ∀ part ∈ directory importer, Plain part := fun part mem =>
    (inside part (List.dropLast_subset _ mem)).plain
  have leads : walk (directory importer).reverse
      (pathParts (relativeSpecifier importer path)) = (pathParts module).reverse := by
    have own : ∀ part ∈ unshared (directory importer) (directory path), Plain part :=
      fun part mem => directories part (List.mem_of_mem_drop mem)
    have there := walk_relativeSpecifier own
    rw [walk_plain directories, walk_plain plain, parts] at there
    simpa using there
  refine ⟨module, stem, relativeSpecifier_relative _ _, endsInName_relativeSpecifier plain, leads,
    ?_, ?_⟩
  · -- A way that is outside stays there, but the module is inside.
    rintro way ⟨rest, whole⟩ left
    have outside := up_mem_walk left rest
    rw [← walk_append, whole, leads, List.mem_reverse, ← parts] at outside
    exact (plain _ outside).up rfl
  · intro other same names
    rw [count_relativeSpecifier plain, ← stem.directory]
    exact ups_le_of_specifier same names

/-- The directory `pets` on the way to the importer is called like the module. -/
theorem relativeSpecifier_shortest_pets :
    (∀ part ∈ pathParts "api/pets/list.ts", Visible part) ∧
    (∀ part ∈ pathParts "api/pets.ts", Visible part) ∧
    relativeSpecifier "api/pets/list.ts" "api/pets.ts" = "../pets" ∧
    walk ["pets", "api"] (pathParts "../pets") = ["pets", "api"] ∧
    ∀ other, walk ["pets", "api"] (pathParts other) = ["pets", "api"] → EndsInName other →
      1 ≤ (pathParts other).count ".." := by
  have importer : ∀ part ∈ pathParts "api/pets/list.ts", Visible part := by decide
  have path : ∀ part ∈ pathParts "api/pets.ts", Visible part := by decide
  have specifier : relativeSpecifier "api/pets/list.ts" "api/pets.ts" = "../pets" := by decide
  have here : (directory "api/pets/list.ts").reverse = ["pets", "api"] := by decide
  obtain ⟨module, _, _, _, leads, _, fewest⟩ := relativeSpecifier_shortest importer path
  rw [specifier, here] at leads fewest
  have there : (pathParts module).reverse = ["pets", "api"] := leads.symm.trans (by decide)
  rw [there] at leads fewest
  exact ⟨importer, path, specifier, leads, fun other same names => fewest other same (.inl names)⟩

end TypedClients
