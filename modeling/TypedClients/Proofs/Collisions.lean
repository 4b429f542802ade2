import Mathlib.Data.List.Pairwise
import TypedClients.Proofs.Units

namespace TypedClients

/-- The names differ in case at most, so files called after them would be one file. -/
def Endpoint.SameName (e f : Endpoint) : Prop := Text.lower e.name.camel = Text.lower f.name.camel

def OutputUnit.Clashes (u : OutputUnit) (all : List Endpoint) : Prop :=
  ∃ i ∈ u.members, ∃ j ∈ u.members, i ≠ j ∧
    ∃ e f, all[i]? = some e ∧ all[j]? = some f ∧ e.SameName f

/-- What the scan reports: the operation with which a name comes again, and the one that had it
before. The operations up to there have different names. -/
structure Collision.Reports (c : Collision) (unit : String) (endpoints : List Endpoint)
    (early : List Endpoint) (first second : Endpoint) (late : List Endpoint) : Prop where
  order : endpoints = early ++ second :: late
  distinct : early.Pairwise fun e f => ¬ e.SameName f
  occurred : first ∈ early
  again : first.SameName second
  reported : c = ⟨second.name.camel, unit, first.location, second.location⟩

section

variable {unit : String} {seen endpoints : List Endpoint} {c : Collision}

theorem findCollision_of_distinct (h : (seen ++ endpoints).Pairwise fun e f => ¬ e.SameName f) :
    findCollision unit seen endpoints = none := by
  induction endpoints generalizing seen with
  | nil => rfl
  | cons e rest ih =>
    have fresh : (seen.find? fun f => Text.lower f.name.camel == Text.lower e.name.camel) = none := by
      rw [List.find?_eq_none]
      intro f earlier
      have apart := (List.pairwise_append.mp h).2.2 f earlier e List.mem_cons_self
      simpa [Endpoint.SameName] using apart
    rw [findCollision, fresh]
    apply ih
    simpa using h

theorem findCollision_eq_none_iff :
    findCollision unit [] endpoints = none ↔ endpoints.Pairwise fun e f => ¬ e.SameName f :=
  ⟨fun none => (findCollision_eq_none none).1, fun distinct => findCollision_of_distinct distinct⟩

/-- The scan stops at the first operation whose name has occurred. -/
theorem findCollision_eq_some (distinct : seen.Pairwise fun e f => ¬ e.SameName f)
    (h : findCollision unit seen endpoints = some c) :
    ∃ early first second late, c.Reports unit (seen ++ endpoints) early first second late := by
  induction endpoints generalizing seen with
  | nil => cases h
  | cons e rest ih =>
    rw [findCollision] at h
    split at h
    · rename_i f found
      cases h
      have same : f.SameName e := by simpa [Endpoint.SameName] using List.find?_some found
      exact ⟨seen, f, e, rest, rfl, distinct, List.mem_of_find?_eq_some found, same, rfl⟩
    · rename_i fresh
      have longer : (seen ++ [e]).Pairwise fun e f => ¬ e.SameName f := by
        rw [List.pairwise_append]
        refine ⟨distinct, List.pairwise_singleton _ _, fun f earlier g last => ?_⟩
        rw [List.mem_singleton.mp last]
        simpa [Endpoint.SameName] using List.find?_eq_none.mp fresh f earlier
      have later := ih longer h
      rwa [List.append_assoc, List.singleton_append] at later

end

section

variable {u : OutputUnit} {all : List Endpoint}

theorem OutputUnit.clashes_iff (distinct : u.members.Nodup) :
    u.Clashes all ↔ ¬ (u.endpoints all).Pairwise fun e f => ¬ e.SameName f := by
  let Apart (i j : Nat) : Prop :=
    ∀ e, all[i]? = some e → ∀ f, all[j]? = some f → ¬ e.SameName f
  have symmetric : Std.Symm Apart :=
    ⟨fun i j apart f at_j e at_i same => apart e at_i f at_j same.symm⟩
  have pairwise : ((u.endpoints all).Pairwise fun e f => ¬ e.SameName f) ↔
      u.members.Pairwise Apart := List.pairwise_filterMap
  rw [pairwise]
  constructor
  · rintro ⟨i, own, j, other, different, e, f, at_i, at_j, same⟩ apart
    exact apart.forall own other different e at_i f at_j same
  · intro clash
    by_contra free
    refine clash (distinct.pairwise_of_forall_ne fun i own j other different e at_i f at_j same => ?_)
    exact free ⟨i, own, j, other, different, e, f, at_i, at_j, same⟩

theorem OutputUnit.collision?_eq_none (distinct : u.members.Nodup) :
    u.collision? all = none ↔ ¬ u.Clashes all := by
  rw [clashes_iff distinct, not_not]
  exact findCollision_eq_none_iff

end

variable {endpoints : List Endpoint} {mode : OutputMode} {title fileStem : String}

theorem planUnits_members_nodup {u : OutputUnit} (h : u ∈ planUnits endpoints mode title fileStem) :
    u.members.Nodup := by
  have grouped : ∀ {key label : Endpoint → String} {n : Nat} {groups : List KeyGroup},
      KeyGroup.Partition key label endpoints n groups → ∀ g ∈ groups, g.members.Nodup :=
    fun part g listed => (part.ascending g listed).imp Nat.ne_of_lt
  have tagged := grouped (KeyGroup.tagGroups_partition endpoints)
  cases mode with
  | single =>
    rw [List.mem_singleton.mp h]
    exact List.nodup_range
  | split =>
    rw [List.mem_singleton.mp h]
    exact List.nodup_range
  | tags =>
    obtain ⟨g, listed, rfl⟩ := List.mem_map.mp h
    exact tagged g listed
  | tagsSplit =>
    obtain ⟨g, listed, rfl⟩ := List.mem_map.mp h
    exact tagged g listed
  | operations =>
    obtain ⟨g, listed, rfl⟩ := List.mem_map.mp h
    exact grouped (KeyGroup.groupBy_partition _ _ endpoints) g listed

theorem operations_meet {i j : Nat} {e f : Endpoint} (at_i : endpoints[i]? = some e)
    (at_j : endpoints[j]? = some f) (same : e.SameName f) :
    ∃ u ∈ planUnits endpoints .operations title fileStem, i ∈ u.members ∧ j ∈ u.members := by
  let key (e : Endpoint) : String := Text.lower e.name.camel
  have part := KeyGroup.groupBy_partition key (fun e => e.name.camel) endpoints
  have keyed := KeyGroup.groupBy_keyed key (fun e => e.name.camel) endpoints
  have placed : ∀ {k : Nat} {d : Endpoint}, endpoints[k]? = some d →
      ∃ g ∈ groupBy key (fun e => e.name.camel) endpoints, k ∈ g.members ∧ g.key = key d := by
    intro k d at_k
    obtain ⟨bound, _⟩ := List.getElem?_eq_some_iff.mp at_k
    obtain ⟨g, listed, own⟩ :=
      List.mem_flatMap.mp (part.covers.mem_iff.mpr (List.mem_range.mpr bound))
    obtain ⟨d', again, known⟩ := keyed g listed k own
    cases at_k.symm.trans again
    exact ⟨g, listed, own, known.symm⟩
  obtain ⟨g, listed, own, g_key⟩ := placed at_i
  obtain ⟨k, other, other_own, k_key⟩ := placed at_j
  have one : g = k :=
    List.inj_on_of_nodup_map part.distinct listed other (by rw [g_key, k_key]; exact same)
  subst one
  exact ⟨_, List.mem_map.mpr ⟨g, listed, rfl⟩, own, other_own⟩

/-- The checks of a plan pass just when no unit has two operations of one name; where every operation
has a file of its own, when no two operations at all have one name. Else the first unit that
fails is reported, with the operation at which a name comes again and the one that had it first. -/
theorem planUnits_collision (endpoints : List Endpoint) (mode : OutputMode)
    (title fileStem : String) :
    let units := planUnits endpoints mode title fileStem
    let collision? := units.findSome? fun u => u.collision? endpoints
    (collision? = none ↔ ∀ u ∈ units, ¬ u.Clashes endpoints) ∧
    (mode = .operations → (collision? = none ↔ ∀ (i j : Nat) (e f : Endpoint), i ≠ j →
      endpoints[i]? = some e → endpoints[j]? = some f → ¬ e.SameName f)) ∧
    ∀ c, collision? = some c → ∃ before u after, units = before ++ u :: after ∧
      (∀ v ∈ before, ¬ v.Clashes endpoints) ∧ u.Clashes endpoints ∧
      ∃ early first second late,
        c.Reports u.name (u.endpoints endpoints) early first second late := by
  intro units collision?
  have checked : ∀ u ∈ units, (u.collision? endpoints = none ↔ ¬ u.Clashes endpoints) :=
    fun u unit => u.collision?_eq_none (planUnits_members_nodup unit)
  have passes : collision? = none ↔ ∀ u ∈ units, ¬ u.Clashes endpoints := by
    rw [List.findSome?_eq_none_iff]
    exact forall₂_congr checked
  refine ⟨passes, fun layout => ?_, fun c found => ?_⟩
  · rw [passes]
    constructor
    · intro free i j e f different at_i at_j same
      have met : ∃ u ∈ units, i ∈ u.members ∧ j ∈ u.members := by
        subst layout
        exact operations_meet at_i at_j same
      obtain ⟨u, unit, own, other⟩ := met
      exact free u unit ⟨i, own, j, other, different, e, f, at_i, at_j, same⟩
    · rintro free u _ ⟨i, _, j, _, different, e, f, at_i, at_j, same⟩
      exact free i j e f different at_i at_j same
  · obtain ⟨before, u, after, split, collides, quiet⟩ := List.findSome?_eq_some_iff.mp found
    have listed : ∀ v ∈ before, v ∈ units := fun v mem => split ▸ List.mem_append_left _ mem
    have unit : u ∈ units := split ▸ List.mem_append_right _ List.mem_cons_self
    refine ⟨before, u, after, split, fun v mem => (checked v (listed v mem)).mp (quiet v mem), ?_,
      findCollision_eq_some .nil collides⟩
    by_contra free
    rw [(checked u unit).mpr free] at collides
    cases collides

def plainGet (name route : String) : Endpoint where
  name := Name.ofText name
  operationId := some name
  verb := .get
  route
  summary := none
  description := none
  tags := []
  deprecated := false
  arguments := []
  pathParams := []
  queryParams := []
  headers := []
  body := none
  response := {}
  mutator := none

def sightings : List Endpoint :=
  [plainGet "listOwls" "/owls", plainGet "getOwl" "/owls/one", plainGet "getowl" "/v2/owl"]

theorem planUnits_collision_sightings :
    let units := planUnits sightings .operations "Owls" "owls"
    let collision : Collision := ⟨"getowl", "getOwl", "GET /owls/one", "GET /v2/owl"⟩
    units.findSome? (fun u => u.collision? sightings) = some collision ∧
      (∃ u ∈ units, u.Clashes sightings ∧ u.name = "getOwl") ∧
      ∃ (i j : Nat) (e f : Endpoint), i ≠ j ∧ sightings[i]? = some e ∧ sightings[j]? = some f ∧
        e.SameName f := by
  intro units collision
  have found : units.findSome? (fun u => u.collision? sightings) = some collision := by
    decide +kernel
  obtain ⟨_, all, first⟩ := planUnits_collision sightings .operations "Owls" "owls"
  obtain ⟨before, u, after, split, _, clashes, _, _, _, _, reports⟩ := first collision found
  have unit : u ∈ units := by
    show u ∈ planUnits ..
    rw [split]
    exact List.mem_append_right _ List.mem_cons_self
  have name : "getOwl" = u.name := congrArg Collision.unit reports.reported
  refine ⟨found, ⟨u, unit, clashes, name.symm⟩, ?_⟩
  by_contra free
  have passes := (all rfl).mpr fun i j e f different at_i at_j same =>
    free ⟨i, j, e, f, different, at_i, at_j, same⟩
  cases passes.symm.trans found

end TypedClients
