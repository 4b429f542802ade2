import TypedClients.Proofs.Alias
import TypedClients.Proofs.Surfaces

namespace TypedClients.Arena

variable {arena : Arena} {busy : List String}

theorem derefFrom_known {unvisited : List (String × SchemaRef)} {name : Option String}
    {path n : String} (named : Pointer.schemaName? path = some n)
    (known : arena.contains n = true) :
    arena.derefFrom busy unvisited name (.ref path) =
      if busy.contains n then .ok (.cycle n)
      else match Keyed.find? n unvisited with
        | none => .error (.circularAlias n)
        | some target => arena.derefFrom busy (Keyed.erase n unvisited) (some n) target := by
  rw [derefFrom, named]
  simp only [known, Bool.not_true, Bool.false_eq_true, if_false]
  congr 1
  split <;> rename_i found <;> rw [found]

theorem derefFrom_ref {unvisited : List (String × SchemaRef)} {name : Option String}
    {path n : String} {r : SchemaRef} (named : Pointer.schemaName? path = some n)
    (stored : arena.find? n = some r) (found : Keyed.find? n unvisited = some r) :
    arena.derefFrom busy unvisited name (.ref path) =
      if busy.contains n then .ok (.cycle n)
      else arena.derefFrom busy (Keyed.erase n unvisited) (some n) r := by
  rw [derefFrom_known named (contains_of_find? stored), found]

theorem deref_eq (items : ∀ b ∈ busy, ∃ s, arena.find? b = some (.item s)) {path n t : String}
    {s : Schema} (named : Pointer.schemaName? path = some n) (stands : arena.StandsFor n t)
    (stored : arena.find? t = some (.item s)) :
    arena.deref busy (.ref path) =
      .ok (if busy.contains t then .cycle t else .schema (some t) s) := by
  suffices chain : ∀ (unvisited : List (String × SchemaRef)) (name : Option String) (path : String),
      arena.Unspent unvisited n → Pointer.schemaName? path = some n →
        arena.derefFrom busy unvisited name (.ref path) =
          .ok (if busy.contains t then .cycle t else .schema (some t) s) from
    chain arena.schemas none path (fun _ _ => rfl) named
  clear named path
  obtain ⟨links, _⟩ := stands
  induction links using Relation.ReflTransGen.head_induction_on with
  | refl =>
    intro unvisited name path unspent named
    rw [derefFrom_ref named stored ((unspent t .refl).trans stored), derefFrom]
    split <;> rfl
  | @head a m first rest ih =>
    intro unvisited name path unspent named
    have acyclic := StandsFor.acyclic (.alias first ⟨rest, s, stored⟩)
    -- Only concrete schemas are ever busy, and `a` is an alias.
    have idle : busy.contains a = false := by
      rw [List.contains_eq_mem, decide_eq_false_iff_not]
      intro mem
      obtain ⟨_, item⟩ := items a mem
      exact first.not_item item
    obtain ⟨path', found, named'⟩ := first
    rw [derefFrom_ref named found ((unspent a .refl).trans found), idle]
    exact ih _ _ path' (unspent.erase ⟨path', found, named'⟩ acyclic) named'

/-- Every reference in the schema names an entry that stands for a schema. -/
def Covers (arena : Arena) (r : SchemaRef) : Prop :=
  ∀ path, r.Mentions path → ∃ n t, Pointer.schemaName? path = some n ∧ arena.StandsFor n t

def Closed (arena : Arena) : Prop :=
  ∀ n s, arena.find? n = some s → arena.Covers s

theorem Covers.inside {s : Schema} {c : SchemaRef} (h : arena.Covers (.item s)) (held : s.Holds c) :
    arena.Covers c := fun path mentioned => h path (.inside held mentioned)

end TypedClients.Arena
