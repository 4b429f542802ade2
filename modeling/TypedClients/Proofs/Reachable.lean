import Mathlib.Logic.Relation
import Mathlib.Order.Bounds.Basic
import TypedClients.Proofs.Keyed
import TypedClients.Proofs.Pointer
import TypedClients.Proofs.Surfaces
import TypedClients.Resolve.Reachable

namespace TypedClients

/-- A mapping target is a full reference or the bare name of a schema. -/
def TargetNames (target name : String) : Prop :=
  Pointer.schemaName? target = some name ∨ ('/' ∉ target.toList ∧ target = name)

/-- The names that a schema refers to: by references at any depth, and by the discriminators of the
schemas given in place. -/
inductive SchemaRef.RefersTo (r : SchemaRef) (name : String) : Prop where
  | reference {path : String} (h : r.Mentions path) (named : Pointer.schemaName? path = some name)
  | mapping {s : Schema} {d : Discriminator} {key target : String} (nested : r.Nests s)
      (h : s.discriminator = some d) (entry : (key, target) ∈ d.mapping)
      (named : TargetNames target name)

namespace SchemaRef

theorem refersTo_ref {path name : String} :
    RefersTo (.ref path) name ↔ Pointer.schemaName? path = some name := by
  constructor
  · intro h
    cases h with
    | reference h named =>
      cases h
      exact named
    | mapping nested => cases nested
  · exact fun named => .reference (.here path) named

theorem refersTo_item {s : Schema} {name : String} : RefersTo (.item s) name ↔
    (∃ d key target, s.discriminator = some d ∧ (key, target) ∈ d.mapping ∧
      TargetNames target name) ∨ ∃ c, s.Holds c ∧ c.RefersTo name := by
  constructor
  · intro h
    cases h with
    | reference h named =>
      cases h with
      | inside held h => exact .inr ⟨_, held, .reference h named⟩
    | mapping nested given entry named =>
      cases nested with
      | self => exact .inl ⟨_, _, _, given, entry, named⟩
      | inside held nested => exact .inr ⟨_, held, .mapping nested given entry named⟩
  · intro given
    rcases given with ⟨d, key, target, given, entry, named⟩ | ⟨c, held, h⟩
    · exact .mapping (.self s) given entry named
    · cases h with
      | reference h named => exact .reference (.inside held h) named
      | mapping nested given entry named => exact .mapping (.inside held nested) given entry named

end SchemaRef

theorem targetReference?_eq_some {target name : String} :
    targetReference? target = some name ↔ TargetNames target name := by
  unfold targetReference? TargetNames
  cases named : Pointer.schemaName? target with
  | some n =>
    have slash := Pointer.slash_mem_of_schemaName? named
    simp [slash]
  | none =>
    by_cases slash : '/' ∈ target.toList <;> simp [Text.hasChar, slash]

namespace SchemaRef

theorem refName?_eq_some {r : SchemaRef} {name : String} :
    r.refName? = some name ↔ ∃ path, r = .ref path ∧ Pointer.schemaName? path = some name := by
  cases r with
  | ref path =>
    simp [refName?]
  | item s =>
    simp [refName?]

end SchemaRef

theorem Schema.mem_directRefs {s : Schema} {name : String} :
    name ∈ s.directRefs ↔
      (∃ path, s.Holds (.ref path) ∧ Pointer.schemaName? path = some name) ∨
        ∃ d key target, s.discriminator = some d ∧ (key, target) ∈ d.mapping ∧
          TargetNames target name := by
  have references : name ∈ s.subschemas.filterMap SchemaRef.refName? ↔
      ∃ path, s.Holds (.ref path) ∧ Pointer.schemaName? path = some name := by
    rw [← children_snd, List.filterMap_map, List.mem_filterMap]
    constructor
    · intro given
      obtain ⟨⟨slot, c⟩, child, named⟩ := given
      obtain ⟨path, rfl, named⟩ := SchemaRef.refName?_eq_some.mp named
      exact ⟨path, Schema.holds_iff_child.mpr ⟨slot, child⟩, named⟩
    · intro given
      obtain ⟨path, held, named⟩ := given
      obtain ⟨slot, child⟩ := Schema.holds_iff_child.mp held
      exact ⟨_, child, SchemaRef.refName?_eq_some.mpr ⟨path, rfl, named⟩⟩
  unfold directRefs
  rw [List.mem_append, references]
  cases s.discriminator with
  | none => simp
  | some d => simp [List.mem_filterMap, targetReference?_eq_some]

theorem SchemaRef.mem_mentioned {r : SchemaRef} {name : String} :
    name ∈ r.mentioned ↔ r.RefersTo name := by
  cases r with
  | ref path =>
    simp only [mentioned, Option.mem_toList]
    constructor
    · intro named
      exact .reference (.here path) named
    · intro h
      cases h with
      | reference h named =>
        cases h
        exact named
      | mapping nested => cases nested
  | item s =>
    simp only [mentioned, List.mem_flatMap, mem_inlined, Schema.mem_directRefs]
    constructor
    · intro given
      obtain ⟨t, nested, ⟨path, held, named⟩ | ⟨d, key, target, h, entry, named⟩⟩ := given
      · exact .reference (mentions_iff.mpr (.inr ⟨t, nested, held⟩)) named
      · exact .mapping nested h entry named
    · intro h
      cases h with
      | reference h named =>
        rcases mentions_iff.mp h with same | ⟨t, nested, held⟩
        · cases same
        · exact ⟨t, nested, .inl ⟨_, held, named⟩⟩
      | mapping nested h entry named => exact ⟨_, nested, .inr ⟨_, _, _, h, entry, named⟩⟩

namespace Arena

inductive Found (remaining : List (String × SchemaRef)) (pending : List String) : String → Prop where
  | start {name : String} (h : name ∈ pending) (known : name ∈ Keyed.keys remaining) :
      Found remaining pending name
  | next {m name : String} {s : SchemaRef} (found : Found remaining pending m)
      (stored : Keyed.find? m remaining = some s) (h : s.RefersTo name)
      (known : name ∈ Keyed.keys remaining) : Found remaining pending name

theorem Found.known {remaining : List (String × SchemaRef)} {pending : List String}
    {name : String} (h : Found remaining pending name) : name ∈ Keyed.keys remaining := by
  cases h with
  | start _ known => exact known
  | next _ _ _ known => exact known

theorem mem_keys_erase {key name : String} {pairs : List (String × SchemaRef)} :
    name ∈ Keyed.keys (Keyed.erase key pairs) ↔ name ≠ key ∧ name ∈ Keyed.keys pairs := by
  simp only [Keyed.keys, Keyed.erase, List.mem_map, List.mem_filter, bne_iff_ne]
  constructor
  · intro given
    obtain ⟨⟨_, s⟩, ⟨h, different⟩, rfl⟩ := given
    exact ⟨different, _, h, rfl⟩
  · intro given
    obtain ⟨different, ⟨_, s⟩, h, rfl⟩ := given
    exact ⟨_, ⟨h, different⟩, rfl⟩

/-- Taking one name from the pending ones and its entry from the remaining ones loses nothing else
that can be found. -/
theorem found_cons_iff {remaining : List (String × SchemaRef)} {pending : List String}
    {first name : String} {s : SchemaRef} (stored : Keyed.find? first remaining = some s) :
    Found remaining (first :: pending) name ↔
      name = first ∨ Found (Keyed.erase first remaining) (pending ++ s.mentioned) name := by
  constructor
  · intro h
    induction h with
    | @start n h known =>
      by_cases same : n = first
      · exact .inl same
      · have member := (List.mem_cons.mp h).resolve_left same
        exact .inr (.start (List.mem_append_left _ member) (mem_keys_erase.mpr ⟨same, known⟩))
    | @next m n t _ found refers known ih =>
      by_cases same : n = first
      · exact .inl same
      · have kept := mem_keys_erase.mpr ⟨same, known⟩
        by_cases back : m = first
        · subst back
          rw [stored] at found
          cases found
          exact .inr (.start (List.mem_append_right _ (SchemaRef.mem_mentioned.mpr refers)) kept)
        · have earlier := ih.resolve_left back
          have found := (Keyed.find?_erase_of_ne remaining back).trans found
          exact .inr (.next earlier found refers kept)
  · have known := Keyed.mem_keys_of_find? stored
    have opening : Found remaining (first :: pending) first := .start List.mem_cons_self known
    intro given
    rcases given with rfl | h
    · exact opening
    · induction h with
      | start h known =>
        have known := (mem_keys_erase.mp known).2
        rcases List.mem_append.mp h with h | h
        · exact .start (List.mem_cons_of_mem _ h) known
        · exact .next opening stored (SchemaRef.mem_mentioned.mp h) known
      | next earlier found refers known ih =>
        have different := (mem_keys_erase.mp earlier.known).1
        have found := (Keyed.find?_erase_of_ne remaining different).symm.trans found
        exact .next ih found refers (mem_keys_erase.mp known).2

theorem found_skip {remaining : List (String × SchemaRef)} {pending : List String}
    {first name : String} (missing : Keyed.find? first remaining = none) :
    Found remaining (first :: pending) name ↔ Found remaining pending name := by
  constructor
  · intro h
    induction h with
    | start h known =>
      rcases List.mem_cons.mp h with rfl | h
      · obtain ⟨_, found⟩ := Keyed.find?_of_mem_keys known
        rw [missing] at found
        cases found
      · exact .start h known
    | next _ found refers known ih => exact .next ih found refers known
  · intro h
    induction h with
    | start h known => exact .start (List.mem_cons_of_mem _ h) known
    | next _ found refers known ih => exact .next ih found refers known

theorem mem_gather {remaining : List (String × SchemaRef)} {pending : List String}
    {name : String} : name ∈ gather remaining pending ↔ Found remaining pending name := by
  fun_induction gather remaining pending with
  | case1 remaining =>
    constructor
    · intro h
      cases h
    · intro h
      induction h with
      | start h => cases h
      | next _ _ _ _ ih => cases ih
  | case2 remaining first pending missing ih => rw [ih, found_skip missing]
  | case3 remaining first pending s stored ih => rw [List.mem_cons, ih, found_cons_iff stored]

theorem mem_reachable {arena : Arena} {roots : List SchemaRef} {name : String} :
    name ∈ arena.reachable roots ↔
      Found arena.schemas (roots.flatMap SchemaRef.mentioned) name := by
  rw [reachable, Names.mem_ofList, mem_gather]

/-- A set of stored names that holds every stored name to which a root or a member refers. -/
structure ClosedOver (arena : Arena) (roots : List SchemaRef) (names : Set String) : Prop where
  stored : ∀ n ∈ names, n ∈ arena.names
  roots : ∀ r ∈ roots, ∀ n ∈ arena.names, r.RefersTo n → n ∈ names
  members : ∀ m ∈ names, ∀ s, arena.find? m = some s → ∀ n ∈ arena.names, s.RefersTo n → n ∈ names

def Edge (arena : Arena) (source target : String) : Prop :=
  ∃ s, arena.find? source = some s ∧ s.RefersTo target ∧ target ∈ arena.names

theorem reachable_increasing (arena : Arena) (roots : List SchemaRef) :
    (arena.reachable roots).Pairwise (· < ·) := Names.ofList_increasing _

theorem reachable_closed (arena : Arena) (roots : List SchemaRef) :
    arena.ClosedOver roots {n | n ∈ arena.reachable roots} where
  stored n h := (mem_reachable.mp h).known
  roots r hr n known refers := by
    apply mem_reachable.mpr
    exact .start (List.mem_flatMap.mpr ⟨r, hr, SchemaRef.mem_mentioned.mpr refers⟩) known
  members m hm s found n known refers := by
    apply mem_reachable.mpr
    exact .next (mem_reachable.mp hm) found refers known

theorem ClosedOver.reachable_subset {arena : Arena} {roots : List SchemaRef} {names : Set String}
    (closed : arena.ClosedOver roots names) {n : String} (h : n ∈ arena.reachable roots) :
    n ∈ names := by
  rw [mem_reachable] at h
  induction h with
  | start h known =>
    obtain ⟨r, hr, named⟩ := List.mem_flatMap.mp h
    exact closed.roots r hr _ known (SchemaRef.mem_mentioned.mp named)
  | next _ found refers known ih =>
    exact closed.members _ ih _ found _ known refers

theorem reachable_congr {arena : Arena} {roots others : List SchemaRef}
    (h : ∀ r, r ∈ roots ↔ r ∈ others) : arena.reachable roots = arena.reachable others := by
  apply Names.ofList_congr
  intro n
  have pending : ∀ m,
      m ∈ roots.flatMap SchemaRef.mentioned ↔ m ∈ others.flatMap SchemaRef.mentioned := by
    intro m
    simp only [List.mem_flatMap, h]
  have transfer : ∀ {left right : List String}, (∀ m, m ∈ left ↔ m ∈ right) →
      Found arena.schemas left n → Found arena.schemas right n := by
    intro left right same found
    induction found with
    | start h known => exact .start ((same _).mp h) known
    | next _ found refers known ih => exact .next ih found refers known
  rw [mem_gather, mem_gather]
  exact ⟨transfer pending, transfer fun m => (pending m).symm⟩

theorem mem_reachableFrom {arena : Arena} {source target : String} :
    target ∈ arena.reachableFrom source ↔ Relation.TransGen arena.Edge source target := by
  unfold reachableFrom
  cases stored : arena.find? source with
  | none =>
    constructor
    · intro h
      cases h
    · intro h
      obtain ⟨_, ⟨s, found, _⟩, _⟩ := Relation.TransGen.head'_iff.mp h
      rw [stored] at found
      cases found
  | some s =>
    simp only [mem_reachable, List.flatMap_cons, List.flatMap_nil, List.append_nil]
    constructor
    · intro h
      induction h with
      | start h known => exact .single ⟨s, stored, SchemaRef.mem_mentioned.mp h, known⟩
      | next _ found refers known ih => exact .tail ih ⟨_, found, refers, known⟩
    · intro h
      induction h with
      | single edge =>
        obtain ⟨_, found, refers, known⟩ := edge
        rw [stored] at found
        cases found
        exact .start (SchemaRef.mem_mentioned.mpr refers) known
      | tail _ edge ih =>
        obtain ⟨_, found, refers, known⟩ := edge
        exact .next ih found refers known

/-- What the roots lead to is the least closed set. It depends only on which roots there are, and a
name leads back to itself just when it lies on a cycle of references. -/
theorem reachable_isLeast (arena : Arena) (roots : List SchemaRef) :
    IsLeast {names | arena.ClosedOver roots names} {n | n ∈ arena.reachable roots} ∧
      (∀ others : List SchemaRef, (∀ r, r ∈ roots ↔ r ∈ others) →
        arena.reachable others = arena.reachable roots) ∧
      ∀ n, n ∈ arena.reachableFrom n ↔ Relation.TransGen arena.Edge n n := by
  refine ⟨⟨arena.reachable_closed roots, ?_⟩, ?_, ?_⟩
  · intro names closed n h
    exact closed.reachable_subset h
  · intro others same
    exact (reachable_congr same).symm
  · intro n
    exact mem_reachableFrom

end Arena

end TypedClients
