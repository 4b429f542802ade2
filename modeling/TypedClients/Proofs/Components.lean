import TypedClients.Proofs.Alias
import TypedClients.Proofs.Pointer
import TypedClients.Resolve.Resolved

namespace TypedClients.ComponentTable

variable {α : Type} {table : ComponentTable α}

def Leads (table : ComponentTable α) (r next : Referenced α) : Prop :=
  ∃ path n, r = .ref path ∧ Pointer.NamesComponent table.kind path n ∧
    Keyed.find? n table.entries = some next

def Ends (table : ComponentTable α) (r : Referenced α) (a : α) : Prop :=
  Relation.ReflTransGen table.Leads r (.item a)

theorem not_leads_item {a : α} {next : Referenced α} : ¬ table.Leads (.item a) next := by
  intro link
  obtain ⟨_, _, none, _⟩ := link
  cases none

theorem ends_item {a b : α} : table.Ends (.item a) b ↔ a = b := by
  constructor
  · intro h
    rcases Relation.ReflTransGen.cases_head h with same | ⟨_, link, _⟩
    · cases same
      rfl
    · exact absurd link not_leads_item
  · intro same
    subst same
    exact .refl

variable (flat : '/' ∉ table.kind.toList)
include flat

theorem leads_ref {path : String} {next : Referenced α} : table.Leads (.ref path) next ↔
    ∃ n, Pointer.componentName? table.kind path = some n ∧
      Keyed.find? n table.entries = some next := by
  constructor
  · intro link
    obtain ⟨_, n, same, named, found⟩ := link
    cases same
    exact ⟨n, (Pointer.componentName?_eq_some flat).mpr named, found⟩
  · intro given
    obtain ⟨n, named, found⟩ := given
    exact ⟨path, n, rfl, (Pointer.componentName?_eq_some flat).mp named, found⟩

theorem Leads.unique {r next other : Referenced α} (first : table.Leads r next)
    (second : table.Leads r other) : next = other := by
  cases r with
  | item a => exact absurd first not_leads_item
  | ref path =>
    obtain ⟨n, named, found⟩ := (leads_ref flat).mp first
    obtain ⟨m, again, stored⟩ := (leads_ref flat).mp second
    cases named.symm.trans again
    exact Option.some.inj (found.symm.trans stored)

theorem Ends.acyclic {r : Referenced α} {a : α} (h : table.Ends r a) :
    ¬ Relation.TransGen table.Leads r r :=
  not_transGen_of_stops (Leads.unique flat) h fun _ => not_leads_item

theorem Ends.rest {r next : Referenced α} {a : α} (h : table.Ends r a)
    (first : table.Leads r next) : table.Ends next a := by
  rcases Relation.ReflTransGen.cases_head h with rfl | ⟨other, second, rest⟩
  · exact absurd first not_leads_item
  · cases first.unique flat second
    exact rest

theorem Ends.first {path : String} {a : α} (h : table.Ends (.ref path) a) :
    ∃ n next, Pointer.componentName? table.kind path = some n ∧
      Keyed.find? n table.entries = some next := by
  rcases Relation.ReflTransGen.cases_head h with same | ⟨next, link, _⟩
  · cases same
  · obtain ⟨n, named, found⟩ := (leads_ref flat).mp link
    exact ⟨n, next, named, found⟩

theorem Ends.unique {r : Referenced α} {a b : α} (first : table.Ends r a)
    (second : table.Ends r b) : a = b := by
  induction first using Relation.ReflTransGen.head_induction_on with
  | refl => exact ends_item.mp second
  | head link _ ih => exact ih (second.rest flat link)

/-- Nothing that the reference may still lead to has been passed. -/
structure Unspent (table : ComponentTable α) (seen : List String)
    (unvisited : List (String × Referenced α)) (r : Referenced α) : Prop where
  seen : ∀ path ∈ seen, ¬ Relation.ReflTransGen table.Leads r (.ref path)
  entries : ∀ path n, Relation.ReflTransGen table.Leads r (.ref path) →
    Pointer.componentName? table.kind path = some n →
      Keyed.find? n unvisited = Keyed.find? n table.entries

theorem Unspent.next {seen : List String} {unvisited : List (String × Referenced α)}
    {path n : String} {next : Referenced α} {a : α} (h : table.Unspent seen unvisited (.ref path))
    (ends : table.Ends (.ref path) a) (named : Pointer.componentName? table.kind path = some n)
    (found : Keyed.find? n table.entries = some next) :
    table.Unspent (path :: seen) (Keyed.erase n unvisited) next := by
  have first : table.Leads (.ref path) next := (leads_ref flat).mpr ⟨n, named, found⟩
  constructor
  · intro p mem back
    rcases List.mem_cons.mp mem with rfl | earlier
    · exact ends.acyclic flat (Relation.TransGen.head' first back)
    · exact h.seen p earlier (.head first back)
  · intro p m chain other
    have different : m ≠ n := by
      rintro rfl
      -- A later reference to the same entry would close a circle.
      have again : table.Leads (.ref p) next := (leads_ref flat).mpr ⟨m, other, found⟩
      exact (ends.rest flat first).acyclic flat (Relation.TransGen.tail' chain again)
    rw [Keyed.find?_erase_of_ne unvisited different]
    exact h.entries p m (.head first chain) other

theorem followFrom_complete {location : String} {seen : List String}
    {unvisited : List (String × Referenced α)} {r : Referenced α} {a : α}
    (unspent : table.Unspent seen unvisited r) (ends : table.Ends r a) :
    table.followFrom location seen unvisited r = .ok a := by
  fun_induction followFrom table location seen unvisited r with
  | case1 seen unvisited b =>
    cases ends_item.mp ends
    rfl
  | case2 seen unvisited path again =>
    exact absurd .refl (unspent.seen path (List.contains_iff_mem.mp again))
  | case3 seen unvisited path _ unnamed =>
    obtain ⟨n, next, named, _⟩ := ends.first flat
    rw [unnamed] at named
    cases named
  | case4 seen unvisited path _ n named missing =>
    obtain ⟨m, next, again, found⟩ := ends.first flat
    cases named.symm.trans again
    rw [missing] at found
    cases found
  | case5 seen unvisited path _ n named b passed found =>
    have left := unspent.entries path n .refl named
    rw [passed, found] at left
    cases left
  | case6 seen unvisited path _ n named again passed found =>
    have left := unspent.entries path n .refl named
    rw [passed, found] at left
    cases left
  | case7 seen unvisited path _ n named _ next left _ ih =>
    have found := (unspent.entries path n .refl named).symm.trans left
    exact ih (unspent.next flat ends named found)
      (ends.rest flat ((leads_ref flat).mpr ⟨n, named, found⟩))

theorem followFrom_sound {location : String} {seen : List String}
    {unvisited : List (String × Referenced α)} {r : Referenced α} {a : α}
    (part : ∀ n next, Keyed.find? n unvisited = some next → Keyed.find? n table.entries = some next)
    (h : table.followFrom location seen unvisited r = .ok a) : table.Ends r a := by
  fun_induction followFrom table location seen unvisited r with
  | case1 seen unvisited b =>
    cases h
    exact .refl
  | case2 => cases h
  | case3 => cases h
  | case4 => cases h
  | case5 seen unvisited path _ n named _ b found =>
    cases h
    exact .single ((leads_ref flat).mpr ⟨n, named, found⟩)
  | case6 => cases h
  | case7 seen unvisited path _ n named _ next left _ ih =>
    have first : table.Leads (.ref path) next := (leads_ref flat).mpr ⟨n, named, part n next left⟩
    exact .head first (ih (fun m other stays =>
      part m other (Keyed.find?_of_find?_erase stays)) h)

theorem follow_iff {location : String} {r : Referenced α} {a : α} :
    table.follow location r = .ok a ↔ table.Ends r a := by
  constructor
  · exact followFrom_sound flat fun _ _ found => found
  · apply followFrom_complete flat
    exact ⟨fun _ none => (List.not_mem_nil none).elim, fun _ _ _ _ => rfl⟩

end TypedClients.ComponentTable
