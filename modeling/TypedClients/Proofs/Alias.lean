import Mathlib.Logic.Relation
import TypedClients.Proofs.Keyed
import TypedClients.Resolve.Arena

namespace TypedClients

theorem not_transGen_of_stops {α : Type} {Step : α → α → Prop} {a t : α}
    (unique : ∀ {a b c}, Step a b → Step a c → b = c) (chain : Relation.ReflTransGen Step a t)
    (stops : ∀ b, ¬ Step t b) : ¬ Relation.TransGen Step a a := by
  induction chain using Relation.ReflTransGen.head_induction_on with
  | refl =>
    intro loop
    obtain ⟨b, first, _⟩ := Relation.TransGen.head'_iff.mp loop
    exact stops b first
  | head first _ ih =>
    intro loop
    obtain ⟨next, other, back⟩ := Relation.TransGen.head'_iff.mp loop
    have same := unique first other
    subst same
    exact ih (Relation.TransGen.tail' back first)

namespace Arena

def AliasOf (arena : Arena) (n m : String) : Prop :=
  ∃ path, arena.find? n = some (.ref path) ∧ Pointer.schemaName? path = some m

/-- A chain of aliases leads from the name to a stored schema. -/
def StandsFor (arena : Arena) (n t : String) : Prop :=
  Relation.ReflTransGen arena.AliasOf n t ∧ ∃ s, arena.find? t = some (.item s)

variable {arena : Arena} {n m t : String}

theorem AliasOf.unique {k : String} (hm : arena.AliasOf n m) (hk : arena.AliasOf n k) : m = k := by
  obtain ⟨path, found, named⟩ := hm
  obtain ⟨other, again, other_named⟩ := hk
  rw [found] at again
  cases again
  rw [named] at other_named
  exact Option.some.inj other_named

theorem AliasOf.not_item {s : Schema} (h : arena.AliasOf n m) :
    arena.find? n ≠ some (.item s) := by
  obtain ⟨path, found, _⟩ := h
  intro item
  rw [found] at item
  cases item

theorem StandsFor.cases_head (h : arena.StandsFor n t) :
    (n = t ∧ ∃ s, arena.find? t = some (.item s)) ∨
      ∃ m, arena.AliasOf n m ∧ arena.StandsFor m t := by
  obtain ⟨chain, stored⟩ := h
  rcases Relation.ReflTransGen.cases_head chain with same | ⟨m, first, rest⟩
  · exact .inl ⟨same, stored⟩
  · exact .inr ⟨m, first, rest, stored⟩

theorem StandsFor.alias (first : arena.AliasOf n m) (h : arena.StandsFor m t) :
    arena.StandsFor n t := ⟨.head first h.1, h.2⟩

theorem StandsFor.item {s : Schema} (h : arena.find? n = some (.item s)) : arena.StandsFor n n :=
  ⟨.refl, s, h⟩

theorem StandsFor.mono {large : Arena}
    (find : ∀ n r, arena.find? n = some r → large.find? n = some r) (h : arena.StandsFor n t) :
    large.StandsFor n t := by
  obtain ⟨chain, s, stored⟩ := h
  refine ⟨Relation.ReflTransGen.mono (fun a b link => ?_) _ _ chain, s, find t _ stored⟩
  obtain ⟨path, found, named⟩ := link
  exact ⟨path, find a _ found, named⟩

theorem StandsFor.unique {u : String} (ht : arena.StandsFor n t) (hu : arena.StandsFor n u) :
    t = u := by
  obtain ⟨chain, s, stored⟩ := ht
  induction chain using Relation.ReflTransGen.head_induction_on with
  | refl =>
    rcases hu.cases_head with ⟨same, _⟩ | ⟨_, first, _⟩
    · exact same
    · exact absurd stored first.not_item
  | head first _ ih =>
    rcases hu.cases_head with ⟨rfl, s, item⟩ | ⟨_, other, rest⟩
    · exact absurd item first.not_item
    · have same := first.unique other
      subst same
      exact ih rest

theorem StandsFor.acyclic (h : arena.StandsFor n t) : ¬ Relation.TransGen arena.AliasOf n n := by
  obtain ⟨chain, s, stored⟩ := h
  exact not_transGen_of_stops AliasOf.unique chain fun _ link => link.not_item stored

theorem StandsFor.mem_names (h : arena.StandsFor n t) : n ∈ arena.names := by
  rcases h.cases_head with ⟨rfl, _, found⟩ | ⟨_, ⟨_, found, _⟩, _⟩
  · exact Keyed.mem_keys_of_find? found
  · exact Keyed.mem_keys_of_find? found

theorem contains_iff_mem_names : arena.contains n = true ↔ n ∈ arena.names :=
  Keyed.contains_iff_mem_keys

theorem contains_of_find? {r : SchemaRef} (h : arena.find? n = some r) : arena.contains n = true :=
  contains_iff_mem_names.mpr (Keyed.mem_keys_of_find? h)

/-- What remains unvisited agrees with the arena on everything that the name may still lead to. -/
def Unspent (arena : Arena) (unvisited : List (String × SchemaRef)) (n : String) : Prop :=
  ∀ m, Relation.ReflTransGen arena.AliasOf n m → Keyed.find? m unvisited = arena.find? m

theorem Unspent.erase {unvisited : List (String × SchemaRef)} (h : arena.Unspent unvisited n)
    (first : arena.AliasOf n m) (acyclic : ¬ Relation.TransGen arena.AliasOf n n) :
    arena.Unspent (Keyed.erase n unvisited) m := by
  intro k chain
  have different : k ≠ n := by
    intro same
    subst same
    exact acyclic (Relation.TransGen.head' first chain)
  rw [Keyed.find?_erase_of_ne unvisited different]
  exact h k (.head first chain)

theorem concreteFrom_complete {unvisited : List (String × SchemaRef)} {s : Schema}
    (unspent : arena.Unspent unvisited n) (h : arena.StandsFor n t)
    (stored : arena.find? t = some (.item s)) : arena.concreteFrom unvisited n = .ok (t, s) := by
  have known : arena.contains n = true := contains_iff_mem_names.mpr h.mem_names
  fun_induction concreteFrom arena unvisited n with
  | case1 unvisited n missing => simp [known] at missing
  | case2 unvisited n _ missing =>
    have found := unspent n .refl
    rw [missing] at found
    obtain ⟨_, stored⟩ := Keyed.find?_of_mem_keys (contains_iff_mem_names.mp known)
    exact absurd (found.trans stored) (by simp)
  | case3 unvisited n _ u found =>
    have item : arena.find? n = some (.item u) := (unspent n .refl).symm.trans found
    have same := h.unique (.item item)
    subst same
    rw [item] at stored
    cases stored
    rfl
  | case4 unvisited n _ path found unnamed =>
    have ref : arena.find? n = some (.ref path) := (unspent n .refl).symm.trans found
    rcases h.cases_head with ⟨rfl, _, item⟩ | ⟨_, ⟨_, again, named⟩, _⟩
    · rw [ref] at item
      cases item
    · rw [ref] at again
      cases again
      rw [unnamed] at named
      cases named
  | case5 unvisited n _ path found next named ih =>
    have first : arena.AliasOf n next := ⟨path, (unspent n .refl).symm.trans found, named⟩
    rcases h.cases_head with ⟨rfl, _, item⟩ | ⟨_, other, rest⟩
    · exact absurd item first.not_item
    · have same := first.unique other
      subst same
      exact ih (unspent.erase first h.acyclic) rest (contains_iff_mem_names.mpr rest.mem_names)

theorem concreteFrom_sound {unvisited : List (String × SchemaRef)} {s : Schema}
    (part : ∀ k r, Keyed.find? k unvisited = some r → arena.find? k = some r)
    (h : arena.concreteFrom unvisited n = .ok (t, s)) :
    arena.StandsFor n t ∧ arena.find? t = some (.item s) := by
  fun_induction concreteFrom arena unvisited n with
  | case1 => cases h
  | case2 => cases h
  | case3 unvisited n _ u found =>
    cases h
    have item := part _ _ found
    exact ⟨.item item, item⟩
  | case4 => cases h
  | case5 unvisited n _ path found next named ih =>
    have first : arena.AliasOf n next := ⟨path, part _ _ found, named⟩
    have rest := ih (fun k r stays => part k r (Keyed.find?_of_find?_erase stays)) h
    exact ⟨.alias first rest.1, rest.2⟩

theorem concrete_eq_ok {s : Schema} :
    arena.concrete n = .ok (t, s) ↔ arena.StandsFor n t ∧ arena.find? t = some (.item s) := by
  constructor
  · exact concreteFrom_sound fun _ _ found => found
  · intro given
    obtain ⟨chain, stored⟩ := given
    exact concreteFrom_complete (fun _ _ => rfl) chain stored

/-- If every alias is of a stored name and no chain of aliases returns, every chain ends. -/
theorem standsFor_of_acyclic
    (closed : ∀ n path, arena.find? n = some (.ref path) →
      ∃ m ∈ arena.names, Pointer.schemaName? path = some m)
    (acyclic : ∀ n, ¬ Relation.TransGen arena.AliasOf n n) (mem : n ∈ arena.names) :
    ∃ t, arena.StandsFor n t := by
  suffices ends : ∀ unvisited n, arena.Unspent unvisited n → n ∈ arena.names →
      ∃ t, arena.StandsFor n t from ends arena.schemas n (fun _ _ => rfl) mem
  intro unvisited n unspent mem
  have known : arena.contains n = true := contains_iff_mem_names.mpr mem
  -- The names that are left decide the chain as the search for its end does.
  fun_induction concreteFrom arena unvisited n with
  | case1 unvisited n missing => simp [known] at missing
  | case2 unvisited n _ missing =>
    obtain ⟨_, stored⟩ := Keyed.find?_of_mem_keys mem
    have found := (unspent n .refl).symm.trans missing
    cases stored.symm.trans found
  | case3 unvisited n _ s found => exact ⟨n, .item ((unspent n .refl).symm.trans found)⟩
  | case4 unvisited n _ path found unnamed =>
    obtain ⟨_, _, named⟩ := closed n path ((unspent n .refl).symm.trans found)
    rw [unnamed] at named
    cases named
  | case5 unvisited n _ path found next named ih =>
    have stored := (unspent n .refl).symm.trans found
    obtain ⟨m, listed, again⟩ := closed n path stored
    cases named.symm.trans again
    have first : arena.AliasOf n next := ⟨path, stored, named⟩
    obtain ⟨t, rest⟩ := ih (unspent.erase first (acyclic n)) listed
      (contains_iff_mem_names.mpr listed)
    exact ⟨t, .alias first rest⟩

theorem acyclic_of_standsFor (h : ∀ n ∈ arena.names, ∃ t, arena.StandsFor n t) (n : String) :
    ¬ Relation.TransGen arena.AliasOf n n := by
  intro loop
  obtain ⟨m, ⟨_, found, _⟩, _⟩ := Relation.TransGen.head'_iff.mp loop
  obtain ⟨t, stands⟩ := h n (Keyed.mem_keys_of_find? found)
  exact stands.acyclic loop

theorem standsFor_congr {other : Arena}
    (refs : ∀ k path, arena.find? k = some (.ref path) ↔ other.find? k = some (.ref path))
    (items : ∀ k, (∃ s, arena.find? k = some (.item s)) ↔ ∃ s, other.find? k = some (.item s)) :
    arena.StandsFor n t ↔ other.StandsFor n t := by
  have steps : arena.AliasOf = other.AliasOf := by
    funext k m
    simp only [AliasOf, refs]
  unfold StandsFor
  rw [steps, items]

end Arena

end TypedClients
