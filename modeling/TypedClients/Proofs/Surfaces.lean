import TypedClients.Document.Walk
import TypedClients.Resolve.Arena

namespace TypedClients

/-- The second schema stands directly inside the first, on one of its thirteen surfaces. -/
inductive Schema.Holds (s : Schema) : SchemaRef → Prop where
  | property {name : String} {c : SchemaRef} (h : (name, c) ∈ s.properties) : Holds s c
  | items {c : SchemaRef} (h : s.items = some c) : Holds s c
  | additional {c : SchemaRef} (h : s.additionalProperties = some (.schema c)) : Holds s c
  | allOf {c : SchemaRef} (h : c ∈ s.allOf) : Holds s c
  | anyOf {c : SchemaRef} (h : c ∈ s.anyOf) : Holds s c
  | oneOf {c : SchemaRef} (h : c ∈ s.oneOf) : Holds s c
  | not {c : SchemaRef} (h : s.notSchema = some c) : Holds s c
  | ifBranch {c : SchemaRef} (h : s.ifSchema = some c) : Holds s c
  | thenBranch {c : SchemaRef} (h : s.thenSchema = some c) : Holds s c
  | elseBranch {c : SchemaRef} (h : s.elseSchema = some c) : Holds s c
  | dependent {name : String} {c : SchemaRef} (h : (name, c) ∈ s.dependentSchemas) : Holds s c
  | pattern {name : String} {c : SchemaRef} (h : (name, c) ∈ s.patternProperties) : Holds s c
  | definition {name : String} {c : SchemaRef} (h : (name, c) ∈ s.definitions) : Holds s c

theorem mem_namedSlots {slot : String → Slot} {table : List (String × SchemaRef)}
    {c : SchemaRef} :
    (∃ at_, (at_, c) ∈ namedSlots slot table) ↔ ∃ name, (name, c) ∈ table := by
  constructor
  · intro given
    obtain ⟨_, h⟩ := given
    obtain ⟨⟨name, _⟩, hm, same⟩ := List.mem_map.mp h
    cases same
    exact ⟨name, hm⟩
  · intro given
    obtain ⟨name, h⟩ := given
    exact ⟨slot name, List.mem_map.mpr ⟨(name, c), h, rfl⟩⟩

theorem mem_numberedSlots {slot : Nat → Slot} {members : List SchemaRef} {c : SchemaRef} :
    (∃ at_, (at_, c) ∈ numberedSlots slot members) ↔ c ∈ members := by
  constructor
  · intro given
    obtain ⟨_, h⟩ := given
    obtain ⟨⟨_, i⟩, hm, same⟩ := List.mem_map.mp h
    cases same
    exact List.fst_mem_of_mem_zipIdx hm
  · intro h
    obtain ⟨i, hi, rfl⟩ := List.mem_iff_getElem.mp h
    refine ⟨slot i, List.mem_map.mpr ⟨(members[i], i), ?_, rfl⟩⟩
    exact List.mk_mem_zipIdx_iff_getElem?.mpr (List.getElem?_eq_getElem hi)

theorem mem_optionalSlot {slot : Slot} {s : Option SchemaRef} {c : SchemaRef} :
    (∃ at_, (at_, c) ∈ optionalSlot slot s) ↔ s = some c := by
  cases s with
  | none => simp [optionalSlot]
  | some d =>
    simp only [optionalSlot, Option.toList_some, List.map_cons, List.map_nil,
      List.mem_singleton, Prod.mk.injEq, exists_and_right, exists_eq, true_and, Option.some.injEq]
    exact eq_comm

namespace Schema

theorem additional?_eq_some {s : Schema} {c : SchemaRef} :
    s.additional? = some c ↔ s.additionalProperties = some (.schema c) := by
  unfold additional?
  split
  · rename_i a ha
    rw [ha]
    simp
  · rename_i other
    constructor
    · intro h
      cases h
    · intro h
      exact absurd h (other c)

theorem holds_iff_child {s : Schema} {c : SchemaRef} :
    s.Holds c ↔ ∃ slot, (slot, c) ∈ s.children := by
  simp only [children, List.mem_append, exists_or, mem_namedSlots, mem_numberedSlots,
    mem_optionalSlot, additional?_eq_some]
  constructor
  · intro h
    cases h with
    | property h =>
      have listed : ∃ name, (name, c) ∈ s.properties := ⟨_, h⟩
      simp [listed]
    | items h => simp [h]
    | additional h => simp [h]
    | allOf h => simp [h]
    | anyOf h => simp [h]
    | oneOf h => simp [h]
    | not h => simp [h]
    | ifBranch h => simp [h]
    | thenBranch h => simp [h]
    | elseBranch h => simp [h]
    | dependent h =>
      have listed : ∃ name, (name, c) ∈ s.dependentSchemas := ⟨_, h⟩
      simp [listed]
    | pattern h =>
      have listed : ∃ name, (name, c) ∈ s.patternProperties := ⟨_, h⟩
      simp [listed]
    | definition h =>
      have listed : ∃ name, (name, c) ∈ s.definitions := ⟨_, h⟩
      simp [listed]
  · intro given
    rcases given with (((((((((((⟨_, h⟩ | h) | h) | h) | h) | h) | h) | h) | h) | h) | ⟨_, h⟩) |
      ⟨_, h⟩) | ⟨_, h⟩
    · exact .property h
    · exact .items h
    · exact .additional h
    · exact .allOf h
    · exact .anyOf h
    · exact .oneOf h
    · exact .not h
    · exact .ifBranch h
    · exact .thenBranch h
    · exact .elseBranch h
    · exact .dependent h
    · exact .pattern h
    · exact .definition h

theorem Holds.sizeOf_lt {s : Schema} {c : SchemaRef} (h : s.Holds c) : sizeOf c < sizeOf s := by
  obtain ⟨_, child⟩ := holds_iff_child.mp h
  exact sizeOf_lt_of_mem_children child

end Schema

namespace SchemaRef

/-- The path of a reference that stands somewhere in a schema, at any depth. -/
inductive Mentions : SchemaRef → String → Prop where
  | here (path : String) : Mentions (.ref path) path
  | inside {s : Schema} {c : SchemaRef} {path : String} (held : s.Holds c)
      (h : Mentions c path) : Mentions (.item s) path

/-- A schema given in place somewhere in another, at any depth, or that other itself. -/
inductive Nests : SchemaRef → Schema → Prop where
  | self (s : Schema) : Nests (.item s) s
  | inside {s t : Schema} {c : SchemaRef} (held : s.Holds c) (h : Nests c t) : Nests (.item s) t

theorem induction {motive : SchemaRef → Prop} (ref : ∀ path, motive (.ref path))
    (item : ∀ s, (∀ c, s.Holds c → motive c) → motive (.item s)) (r : SchemaRef) : motive r :=
  match r with
  | .ref path => ref path
  | .item s => item s fun c _held => induction ref item c
termination_by sizeOf r
decreasing_by
  have := _held.sizeOf_lt
  simp only [Referenced.item.sizeOf_spec]
  omega

theorem mem_inlined {r : SchemaRef} {t : Schema} : t ∈ r.inlined ↔ r.Nests t := by
  induction r using SchemaRef.induction with
  | ref path =>
    rw [inlined]
    constructor
    · intro h
      cases h
    · intro h
      cases h
  | item s ih =>
    rw [inlined_item, List.mem_cons, List.mem_flatMap]
    constructor
    · intro given
      rcases given with rfl | ⟨⟨slot, c⟩, child, h⟩
      · exact .self _
      · have held := Schema.holds_iff_child.mpr ⟨slot, child⟩
        exact .inside held ((ih c held).mp h)
    · intro h
      cases h with
      | self => exact .inl rfl
      | inside held h =>
        obtain ⟨slot, child⟩ := Schema.holds_iff_child.mp held
        exact .inr ⟨_, child, (ih _ held).mpr h⟩

theorem mem_sites {r : SchemaRef} {location path : String} :
    (∃ place, (place, path) ∈ r.sites location) ↔ r.Mentions path := by
  induction r using SchemaRef.induction generalizing location with
  | ref p =>
    simp only [sites, List.mem_singleton, Prod.mk.injEq, exists_eq_left]
    constructor
    · intro same
      subst same
      exact .here _
    · intro h
      cases h
      rfl
  | item s ih =>
    simp only [sites_item, List.mem_flatMap]
    constructor
    · intro given
      obtain ⟨place, ⟨slot, c⟩, child, h⟩ := given
      have held := Schema.holds_iff_child.mpr ⟨slot, child⟩
      exact .inside held ((ih c held).mp ⟨place, h⟩)
    · intro h
      cases h with
      | inside held h =>
        obtain ⟨slot, child⟩ := Schema.holds_iff_child.mp held
        obtain ⟨place, site⟩ := (ih _ held).mpr h
        exact ⟨place, _, child, site⟩

theorem mentions_iff {r : SchemaRef} {path : String} :
    r.Mentions path ↔ r = .ref path ∨ ∃ s, r.Nests s ∧ s.Holds (.ref path) := by
  constructor
  · intro h
    induction h with
    | here => exact .inl rfl
    | @inside s c path held _ ih =>
      rcases ih with rfl | ⟨t, nested, h⟩
      · exact .inr ⟨s, .self s, held⟩
      · exact .inr ⟨t, .inside held nested, h⟩
  · intro given
    rcases given with rfl | ⟨s, nested, held⟩
    · exact .here path
    · induction nested with
      | self => exact .inside held (.here path)
      | inside outer _ ih => exact .inside outer (ih held)

end SchemaRef

/-- Inner schemas are smaller, and a name is expanded at most once on the way to them. -/
theorem Arena.expansion_induction (arena : Arena) {motive : List String → SchemaRef → Prop}
    (item : ∀ busy s, (∀ c, s.Holds c → motive busy c) → motive busy (.item s))
    (ref : ∀ busy path, (∀ t s, arena.contains t = true → busy.contains t = false →
      motive (t :: busy) (.item s)) → motive busy (.ref path))
    (busy : List String) (r : SchemaRef) : motive busy r := by
  match r with
  | .item s => exact item busy s fun c _held => arena.expansion_induction item ref busy c
  | .ref path =>
    -- The schema may be larger than the reference, but fewer names are left to expand.
    apply ref
    intro t s known fresh
    have _fewer := unexpanded_cons_lt known fresh
    exact arena.expansion_induction item ref (t :: busy) (.item s)
termination_by ((arena.unexpanded busy).length, sizeOf r)
decreasing_by
  · refine Prod.Lex.right _ ?_
    have := _held.sizeOf_lt
    simp only [Referenced.item.sizeOf_spec]
    omega
  · exact Prod.Lex.left _ _ _fewer

end TypedClients
