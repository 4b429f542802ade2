import Mathlib.Data.List.Induction
import Mathlib.Data.List.Nodup
import TypedClients.Operation.Unit
import TypedClients.Proofs.Identifiers
import TypedClients.Proofs.Specifiers

namespace TypedClients

namespace KeyGroup

/-- The first so many of the operations, each in one group, under the folded key of its own. -/
structure Partition (key label : Endpoint → String) (endpoints : List Endpoint) (n : Nat)
    (groups : List KeyGroup) : Prop where
  covers : (groups.flatMap KeyGroup.members).Perm (List.range n)
  ascending : ∀ g ∈ groups, g.members.Pairwise (· < ·)
  distinct : (groups.map KeyGroup.key).Nodup
  labelled : ∀ g ∈ groups, ∃ e ∈ endpoints, g.label = label e ∧ g.key = key e

variable {label fold : String} {i : Nat} {groups : List KeyGroup} {g : KeyGroup}

theorem mem_addToGroup (h : g ∈ addToGroup label fold i groups) :
    g = ⟨fold, label, [i]⟩ ∨ g ∈ groups ∨
      ∃ k ∈ groups, k.key = fold ∧ g = { k with members := k.members ++ [i] } := by
  induction groups with
  | nil => exact .inl (List.mem_singleton.mp h)
  | cons k rest ih =>
    rw [addToGroup] at h
    split at h
    · rename_i same
      rcases List.mem_cons.mp h with rfl | later
      · exact .inr (.inr ⟨k, List.mem_cons_self, same, rfl⟩)
      · exact .inr (.inl (List.mem_cons_of_mem _ later))
    · rcases List.mem_cons.mp h with rfl | later
      · exact .inr (.inl List.mem_cons_self)
      · rcases ih later with own | earlier | ⟨j, mem, same⟩
        · exact .inl own
        · exact .inr (.inl (List.mem_cons_of_mem _ earlier))
        · exact .inr (.inr ⟨j, List.mem_cons_of_mem _ mem, same⟩)

theorem keys_addToGroup : (addToGroup label fold i groups).map KeyGroup.key =
    if fold ∈ groups.map KeyGroup.key then groups.map KeyGroup.key
    else groups.map KeyGroup.key ++ [fold] := by
  induction groups with
  | nil => simp [addToGroup]
  | cons k rest ih =>
    by_cases same : k.key = fold
    · simp [addToGroup, same]
    · have other : ¬ fold = k.key := fun eq => same eq.symm
      simp only [addToGroup, same, if_false, List.map_cons, ih, List.mem_cons, other, false_or]
      split <;> rfl

theorem members_addToGroup : ((addToGroup label fold i groups).flatMap KeyGroup.members).Perm
    (groups.flatMap KeyGroup.members ++ [i]) := by
  induction groups with
  | nil => exact .refl _
  | cons k rest ih =>
    rw [addToGroup]
    split
    · rw [List.flatMap_cons, List.flatMap_cons, List.append_assoc, List.append_assoc]
      exact List.perm_append_comm.append_left _
    · rw [List.flatMap_cons, List.flatMap_cons, List.append_assoc]
      exact ih.append_left _

namespace Partition

variable {key name : Endpoint → String} {endpoints : List Endpoint} {n : Nat}

theorem start : Partition key name endpoints 0 [] where
  covers := .refl _
  ascending g none := by cases none
  distinct := .nil
  labelled g none := by cases none

theorem lt (h : Partition key name endpoints n groups) (mem : g ∈ groups) {i : Nat}
    (own : i ∈ g.members) : i < n := by
  have listed : i ∈ groups.flatMap KeyGroup.members := List.mem_flatMap.mpr ⟨g, mem, own⟩
  exact List.mem_range.mp (h.covers.mem_iff.mp listed)

theorem step (h : Partition key name endpoints n groups) {e : Endpoint} (mem : e ∈ endpoints) :
    Partition key name endpoints (n + 1) (addToGroup (name e) (key e) n groups) where
  covers := by
    rw [List.range_succ]
    exact members_addToGroup.trans (h.covers.append_right _)
  ascending := by
    intro g listed
    rcases mem_addToGroup listed with rfl | earlier | ⟨k, earlier, _, rfl⟩
    · exact List.pairwise_singleton _ _
    · exact h.ascending g earlier
    · refine List.pairwise_append.mpr ⟨h.ascending k earlier, List.pairwise_singleton _ _, ?_⟩
      intro i own j last
      rw [List.mem_singleton.mp last]
      exact h.lt earlier own
  distinct := by
    rw [keys_addToGroup]
    split
    · exact h.distinct
    · rename_i fresh
      refine List.nodup_append.mpr ⟨h.distinct, List.nodup_singleton _, ?_⟩
      intro a earlier b last same
      rw [same, List.mem_singleton.mp last] at earlier
      exact fresh earlier
  labelled := by
    intro g listed
    rcases mem_addToGroup listed with rfl | earlier | ⟨k, earlier, _, rfl⟩
    · exact ⟨e, mem, rfl, rfl⟩
    · exact h.labelled g earlier
    · exact h.labelled k earlier

theorem perm {sorted : List KeyGroup} (h : Partition key name endpoints n groups)
    (same : sorted.Perm groups) : Partition key name endpoints n sorted where
  covers := (same.flatMap_right _).trans h.covers
  ascending g mem := h.ascending g (same.mem_iff.mp mem)
  distinct := (same.map _).nodup_iff.mpr h.distinct
  labelled g mem := h.labelled g (same.mem_iff.mp mem)

end Partition

theorem groupBy_induction {key label : Endpoint → String} {endpoints : List Endpoint}
    {P : Nat → List KeyGroup → Prop} (start : P 0 [])
    (step : ∀ n groups e, endpoints[n]? = some e → P n groups →
      P (n + 1) (addToGroup (label e) (key e) n groups)) :
    P endpoints.length (groupBy key label endpoints) := by
  suffices grown : ∀ (rest front : List Endpoint) (groups : List KeyGroup),
      endpoints = front ++ rest → P front.length groups → P endpoints.length
        ((rest.zipIdx front.length).foldl
          (fun groups x => addToGroup (label x.1) (key x.1) x.2 groups) groups) from
    grown endpoints [] [] rfl start
  intro rest
  induction rest with
  | nil =>
    intro front groups whole h
    rw [whole, List.append_nil]
    exact h
  | cons e rest ih =>
    intro front groups whole h
    have here : endpoints[front.length]? = some e := by simp [whole]
    have next := ih (front ++ [e]) (addToGroup (label e) (key e) front.length groups) (by simp [whole])
    rw [List.length_append, List.length_singleton] at next
    exact next (step _ _ e here h)

theorem groupBy_partition (key label : Endpoint → String) (endpoints : List Endpoint) :
    Partition key label endpoints endpoints.length (groupBy key label endpoints) :=
  groupBy_induction .start fun _ _ _ here h => h.step (List.mem_of_getElem? here)

theorem groupBy_keyed (key label : Endpoint → String) (endpoints : List Endpoint) :
    ∀ g ∈ groupBy key label endpoints, ∀ i ∈ g.members,
      ∃ e, endpoints[i]? = some e ∧ key e = g.key := by
  refine groupBy_induction (P := fun _ groups => ∀ g ∈ groups, ∀ i ∈ g.members,
    ∃ e, endpoints[i]? = some e ∧ key e = g.key) (fun g none => by cases none) ?_
  intro n groups e here known g listed i own
  rcases mem_addToGroup listed with rfl | earlier | ⟨k, earlier, same, rfl⟩
  · rw [List.mem_singleton.mp own]
    exact ⟨e, here, rfl⟩
  · exact known g earlier i own
  · rcases List.mem_append.mp own with own | last
    · exact known k earlier i own
    · rw [List.mem_singleton.mp last]
      exact ⟨e, here, same.symm⟩

theorem tagGroups_partition (endpoints : List Endpoint) :
    Partition (fun e => Text.lower (stem e.firstTag)) Endpoint.firstTag endpoints endpoints.length
      (tagGroups endpoints) :=
  (groupBy_partition _ _ endpoints).perm (List.mergeSort_perm _ _)

theorem tagGroups_of_sorted {endpoints : List Endpoint} {groups : List KeyGroup}
    (grouped : groupBy (fun e => Text.lower (stem e.firstTag)) Endpoint.firstTag endpoints = groups)
    (sorted : groups.Pairwise fun a b => !decide (b.key < a.key)) :
    tagGroups endpoints = groups := by
  unfold tagGroups
  rw [grouped]
  exact List.mergeSort_of_pairwise sorted

end KeyGroup

theorem stem_flat (name : String) : '/' ∉ (stem name).toList := fun slash =>
  Name.camel_markFree name '/' slash (.inl rfl)

/-- The name of the unit's file, without directory and extension. -/
def OutputUnit.stem (u : OutputUnit) : String := (moduleParts u.path).getLastD ""

section

variable {title path : String} {members : List Nat}

theorem OutputUnit.stem_top (flat : '/' ∉ path.toList) :
    OutputUnit.stem ⟨title, path ++ ".ts", members⟩ = path := by
  unfold OutputUnit.stem
  rw [moduleParts_suffix, pathParts_flat flat]
  rfl

theorem OutputUnit.stem_inside (flat : '/' ∉ path.toList) (directory : String) :
    OutputUnit.stem ⟨title, directory ++ "/" ++ path ++ ".ts", members⟩ = path := by
  unfold OutputUnit.stem
  rw [moduleParts_suffix, pathParts_slash, pathParts_flat flat]
  exact List.getLastD_concat

end

/-- The units share the operations out among them and have files of their own. -/
structure Allotment (n : Nat) (units : List OutputUnit) : Prop where
  covers : (units.flatMap OutputUnit.members).Perm (List.range n)
  ascending : ∀ u ∈ units, u.members.Pairwise (· < ·)
  distinct : (units.map fun u => Text.lower u.stem).Nodup

theorem KeyGroup.Partition.allotment {key label : Endpoint → String} {endpoints : List Endpoint}
    {n : Nat} {groups : List KeyGroup} (h : Partition key label endpoints n groups)
    {unit : KeyGroup → OutputUnit} (members : ∀ g, (unit g).members = g.members)
    (stems : ∀ g ∈ groups, Text.lower (unit g).stem = g.key) : Allotment n (groups.map unit) where
  covers := by
    rw [List.flatMap_map]
    simp only [members]
    exact h.covers
  ascending := by
    intro u mem
    obtain ⟨g, listed, rfl⟩ := List.mem_map.mp mem
    rw [members]
    exact h.ascending g listed
  distinct := by
    have keys : (groups.map unit).map (fun u => Text.lower u.stem) = groups.map KeyGroup.key := by
      rw [List.map_map]
      exact List.map_congr_left stems
    rw [keys]
    exact h.distinct

/-- Whatever the layout, no operation is left out or put into two units. -/
theorem planUnits_allotment {endpoints : List Endpoint}
    (named : ∀ e ∈ endpoints, ∃ source, e.name = Name.ofText source) (mode : OutputMode)
    (title fileStem : String) :
    Allotment endpoints.length (planUnits endpoints mode title fileStem) := by
  have whole : Allotment endpoints.length
      [⟨title, fileStem ++ ".ts", List.range endpoints.length⟩] := by
    refine ⟨?_, ?_, List.nodup_singleton _⟩
    · rw [List.flatMap_singleton]
    · intro u mem
      rw [List.mem_singleton.mp mem]
      exact List.pairwise_lt_range
  have tagged := KeyGroup.tagGroups_partition endpoints
  cases mode with
  | single => exact whole
  | split => exact whole
  | tags =>
    refine tagged.allotment (fun _ => rfl) fun g listed => ?_
    obtain ⟨e, _, label, key⟩ := tagged.labelled g listed
    rw [OutputUnit.stem_top (stem_flat _), label, key]
  | tagsSplit =>
    refine tagged.allotment (fun _ => rfl) fun g listed => ?_
    obtain ⟨e, _, label, key⟩ := tagged.labelled g listed
    rw [OutputUnit.stem_inside (stem_flat _), label, key]
  | operations =>
    have grouped := KeyGroup.groupBy_partition (fun e => Text.lower e.name.camel)
      (fun e => e.name.camel) endpoints
    refine grouped.allotment (fun _ => rfl) fun g listed => ?_
    obtain ⟨e, mem, label, key⟩ := grouped.labelled g listed
    obtain ⟨source, name⟩ := named e mem
    have flat : '/' ∉ g.label.toList := by
      rw [label, name]
      exact stem_flat source
    show Text.lower (OutputUnit.stem ⟨_, "endpoints" ++ "/" ++ g.label ++ ".ts", _⟩) = _
    rw [OutputUnit.stem_inside flat, label, key]

theorem filterMap_getElem?_range {α : Type} (as : List α) :
    (List.range as.length).filterMap (fun i => as[i]?) = as := by
  induction as using List.reverseRecOn with
  | nil => rfl
  | append_singleton rest a ih =>
    have earlier : (List.range rest.length).filterMap (fun i => (rest ++ [a])[i]?) =
        (List.range rest.length).filterMap fun i => rest[i]? := by
      apply List.filterMap_congr
      intro i mem
      exact List.getElem?_append_left (List.mem_range.mp mem)
    rw [List.length_append, List.length_singleton, List.range_succ, List.filterMap_append, earlier,
      ih]
    simp

theorem Allotment.endpoints_perm {endpoints : List Endpoint} {units : List OutputUnit}
    (h : Allotment endpoints.length units) :
    (units.flatMap fun u => u.endpoints endpoints).Perm endpoints := by
  have joined : (units.flatMap fun u => u.endpoints endpoints) =
      (units.flatMap OutputUnit.members).filterMap fun i => endpoints[i]? := by
    rw [List.filterMap_flatMap]
    rfl
  have shared := h.covers.filterMap fun i => endpoints[i]?
  rw [filterMap_getElem?_range] at shared
  rw [joined]
  exact shared

theorem findCollision_eq_none {unit : String} {seen endpoints : List Endpoint}
    (h : findCollision unit seen endpoints = none) :
    endpoints.Pairwise (fun e f => Text.lower e.name.camel ≠ Text.lower f.name.camel) ∧
      ∀ f ∈ seen, ∀ e ∈ endpoints, Text.lower f.name.camel ≠ Text.lower e.name.camel := by
  induction endpoints generalizing seen with
  | nil => exact ⟨.nil, fun f _ e none => by cases none⟩
  | cons e rest ih =>
    rw [findCollision] at h
    split at h
    · cases h
    · rename_i fresh
      have first : ∀ f ∈ seen, Text.lower f.name.camel ≠ Text.lower e.name.camel := by
        simpa using fresh
      obtain ⟨apart, others⟩ := ih h
      refine ⟨List.pairwise_cons.mpr ⟨fun f mem => ?_, apart⟩, fun f earlier g mem => ?_⟩
      · exact others e (by simp) f mem
      · rcases List.mem_cons.mp mem with rfl | later
        · exact first f earlier
        · exact others f (by simp [earlier]) g later

theorem OutputUnit.names_nodup {u : OutputUnit} {all : List Endpoint}
    (h : u.collision? all = none) : ((u.endpoints all).map (·.name.camel)).Nodup := by
  have apart := (findCollision_eq_none h).1
  exact List.pairwise_map.mpr (apart.imp fun differ same => differ (congrArg Text.lower same))

end TypedClients
