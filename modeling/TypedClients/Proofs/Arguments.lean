import TypedClients.Proofs.Operations

namespace TypedClients

open Outcome

variable {params : List Param} {names : List String} {p : Param} {route : String}

def camelOf (name : String) : String := (Name.ofText name).camel

def wires (params : List Param) : List String := params.map (·.wire)

theorem any_wire {name : String} :
    (params.any fun p => p.wire == name) = true ↔ name ∈ wires params := by
  simp [wires]

theorem mem_foldl_addPlaceholder : p ∈ names.foldl addPlaceholder params ↔
    p ∈ params ∨ ∃ name ∈ names, name ∉ wires params ∧ p = .undeclared name := by
  induction names generalizing params with
  | nil => simp
  | cons first rest ih =>
    rw [List.foldl_cons, ih]
    by_cases known : first ∈ wires params
    · have same : addPlaceholder params first = params := if_pos (any_wire.mpr known)
      rw [same]
      refine or_congr_right ⟨?_, ?_⟩
      · rintro ⟨name, later, new, rfl⟩
        exact ⟨name, List.mem_cons_of_mem _ later, new, rfl⟩
      · rintro ⟨name, listed, new, rfl⟩
        rcases List.mem_cons.mp listed with rfl | later
        · exact absurd known new
        · exact ⟨name, later, new, rfl⟩
    · have added : addPlaceholder params first = params ++ [.undeclared first] :=
        if_neg fun given => known (any_wire.mp given)
      have more : ∀ name, name ∈ wires (params ++ [.undeclared first]) ↔
          name ∈ wires params ∨ name = first := by
        intro name
        simp [wires, Param.undeclared, eq_comm]
      rw [added]
      simp only [more, List.mem_append, List.mem_singleton, not_or]
      constructor
      · rintro ((earlier | rfl) | ⟨name, later, ⟨new, _⟩, rfl⟩)
        · exact .inl earlier
        · exact .inr ⟨first, List.mem_cons_self, known, rfl⟩
        · exact .inr ⟨name, List.mem_cons_of_mem _ later, new, rfl⟩
      · rintro (earlier | ⟨name, listed, new, rfl⟩)
        · exact .inl (.inl earlier)
        · by_cases same : name = first
          · exact .inl (.inr (same ▸ rfl))
          · exact .inr ⟨name, (List.mem_cons.mp listed).resolve_left same, ⟨new, same⟩, rfl⟩

theorem mem_orderPathParams_iff : p ∈ orderPathParams route params ↔
    p ∈ params ∨ ∃ name ∈ placeholders route, name ∉ wires params ∧ p = .undeclared name :=
  (List.mergeSort_perm _ _).mem_iff.trans mem_foldl_addPlaceholder

theorem wires_orderPathParams {name : String} : name ∈ wires (orderPathParams route params) ↔
    name ∈ wires params ∨ name ∈ placeholders route := by
  unfold wires
  simp only [List.mem_map, mem_orderPathParams_iff]
  constructor
  · rintro ⟨p, declared | ⟨name, listed, _, rfl⟩, rfl⟩
    · exact .inl ⟨p, declared, rfl⟩
    · exact .inr listed
  · rintro (⟨p, declared, rfl⟩ | listed)
    · exact ⟨p, .inl declared, rfl⟩
    · by_cases known : name ∈ wires params
      · obtain ⟨p, declared, rfl⟩ := List.mem_map.mp known
        exact ⟨p, .inl declared, rfl⟩
      · exact ⟨_, .inr ⟨name, listed, known, rfl⟩, rfl⟩

theorem nodup_foldl_addPlaceholder (distinct : (wires params).Nodup) :
    (wires (names.foldl addPlaceholder params)).Nodup := by
  induction names generalizing params with
  | nil => exact distinct
  | cons first rest ih =>
    apply ih
    unfold addPlaceholder
    split
    · exact distinct
    · rename_i unknown
      have fresh : first ∉ wires params := fun known => unknown (any_wire.mpr known)
      simpa [wires, Param.undeclared] using List.Nodup.concat fresh distinct

theorem nodup_orderPathParams (distinct : (wires params).Nodup) :
    (wires (orderPathParams route params)).Nodup :=
  ((List.mergeSort_perm _ _).map _).nodup_iff.mpr (nodup_foldl_addPlaceholder distinct)

theorem keys_insertParameter (p : Parameter) (ps : List Parameter) :
    (insertParameter p ps).map Parameter.key =
      if p.key ∈ ps.map Parameter.key then ps.map Parameter.key
      else ps.map Parameter.key ++ [p.key] := by
  induction ps with
  | nil => rfl
  | cons q rest ih =>
    rw [insertParameter]
    by_cases same : q.key = p.key
    · simp [same]
    · rw [if_neg same, List.map_cons, ih]
      by_cases later : p.key ∈ rest.map Parameter.key <;> simp [later, Ne.symm same]

theorem nodup_foldl_insertParameter (ps : List Parameter) {acc : List Parameter}
    (distinct : (acc.map Parameter.key).Nodup) :
    ((ps.foldl (fun acc p => insertParameter p acc) acc).map Parameter.key).Nodup := by
  induction ps generalizing acc with
  | nil => exact distinct
  | cons p rest ih =>
    apply ih
    rw [keys_insertParameter]
    split
    · exact distinct
    · rename_i fresh
      simpa using List.Nodup.concat fresh distinct

theorem nodup_mergeParameters (shared own : List (Referenced Parameter)) :
    ((mergeParameters shared own).map Parameter.key).Nodup :=
  nodup_foldl_insertParameter _ .nil

def declaredPath (shared own : List (Referenced Parameter)) : List Parameter :=
  (mergeParameters shared own).filter fun p => p.location == .path

def declaredNames (item : PathItem) (op : Operation) : List String :=
  (declaredPath item.parameters op.parameters).map (·.name)

def pathNames (item : PathItem) (op : Operation) (route : String) : List String :=
  declaredNames item op ++ placeholders route

theorem nodup_declaredPath (shared own : List (Referenced Parameter)) :
    ((declaredPath shared own).map (·.name)).Nodup := by
  have keys : ((declaredPath shared own).map Parameter.key).Nodup :=
    (nodup_mergeParameters shared own).sublist (List.filter_sublist.map _)
  have paired : (declaredPath shared own).map Parameter.key =
      ((declaredPath shared own).map (·.name)).map fun name => (name, .path) := by
    rw [List.map_map]
    apply List.map_congr_left
    intro p mem
    have place : p.location = .path := by simpa using (List.mem_filter.mp mem).2
    exact Prod.ext rfl place
  rw [paired] at keys
  exact keys.of_map _

def functionSource (target : Target) (verb : Verb) (route : String) (op : Operation) : String :=
  (Keyed.find? (rawName target verb route op) target.naming.aliases).getD
    (rawName target verb route op)

/-- Every endpoint is built from an operation that the target selects, which stands in its place. -/
theorem buildEndpoints_selected {resolved : Resolved} {target : Target} {endpoints : List Endpoint}
    (built : buildEndpoints resolved target = .ok endpoints) {e : Endpoint} (mem : e ∈ endpoints) :
    ∃ item op, (e.route, item, e.verb, op) ∈ selectedOperations target resolved.document.paths ∧
      Endpoint.build resolved.arena target e.route item.parameters e.verb op = .ok e := by
  obtain ⟨⟨route, item, verb, op⟩, selected, run⟩ := mem_of_mapM built mem
  have place := Endpoint.build_place run
  obtain rfl : e.route = route := congrArg Prod.fst place
  obtain rfl : e.verb = verb := congrArg (fun x => x.2.1) place
  exact ⟨item, op, selected, run⟩

namespace Endpoint

variable {arena : Arena} {target : Target} {shared : List (Referenced Parameter)} {verb : Verb}
  {op : Operation} {e : Endpoint}

theorem build_parts (h : build arena target route shared verb op = .ok e) :
    e.name = Name.ofText (functionSource target verb route op) ∧
      e.pathParams = orderPathParams route
        ((declaredPath shared op.parameters).map (.ofParameter arena false)) ∧
      e.arguments = buildArguments e.pathParams e.body e.queryParams e.headers := by
  unfold build at h
  simp only [bind_eq_ok, pure_eq_ok] at h
  obtain ⟨_, _, rfl⟩ := h
  exact ⟨rfl, rfl, rfl⟩

theorem wires_declared (arena : Arena) (shared own : List (Referenced Parameter)) :
    wires ((declaredPath shared own).map (.ofParameter arena false)) =
      (declaredPath shared own).map (·.name) := by
  unfold wires
  rw [List.map_map]
  rfl

theorem build_spelled (h : build arena target route shared verb op = .ok e) :
    ∀ p ∈ e.pathParams, p.name = Name.ofText p.wire := by
  obtain ⟨_, ordered, _⟩ := build_parts h
  intro p mem
  rw [ordered] at mem
  rcases mem_orderPathParams_iff.mp mem with declared | ⟨name, _, _, rfl⟩
  · obtain ⟨q, _, rfl⟩ := List.mem_map.mp declared
    rfl
  · rfl

theorem nodup_wires (h : build arena target route shared verb op = .ok e) :
    (wires e.pathParams).Nodup := by
  obtain ⟨_, ordered, _⟩ := build_parts h
  rw [ordered]
  apply nodup_orderPathParams
  rw [wires_declared]
  exact nodup_declaredPath _ _

theorem mem_wires {item : PathItem} (h : build arena target route item.parameters verb op = .ok e)
    {name : String} : name ∈ wires e.pathParams ↔ name ∈ pathNames item op e.route := by
  obtain ⟨_, ordered, _⟩ := build_parts h
  have same : e.route = route := congrArg Prod.fst (build_place h)
  rw [same, ordered, wires_orderPathParams, wires_declared, pathNames, List.mem_append]
  rfl

end Endpoint

def groupNames (name : String) (params : List Param) : List String :=
  if params.isEmpty then [] else [name]

def fixedNames (body : Option Body) (queryParams headers : List Param) : List String :=
  (if body.isSome then ["body"] else []) ++ groupNames "params" queryParams ++
    groupNames "headers" headers

theorem buildArguments_perm (body : Option Body) (queryParams headers : List Param) :
    (buildArguments params body queryParams headers).Perm
      (params.map (fun p => Argument.mk p.name.camel .pathParam p.type true) ++
        ((body.map fun b => Argument.mk "body" .body b.type b.required).toList ++
          groupArgument "params" .params queryParams ++
            groupArgument "headers" .headers headers)) := by
  unfold buildArguments
  simp only [List.append_assoc]
  exact List.filter_append_perm _ _

theorem groupArgument_names (name : String) (kind : ArgumentKind) (params : List Param) :
    (groupArgument name kind params).map (·.name) = groupNames name params := by
  unfold groupArgument groupNames
  split <;> rfl

theorem buildArguments_names (body : Option Body) (queryParams headers : List Param) :
    ((buildArguments params body queryParams headers).map (·.name)).Perm
      (params.map (·.name.camel) ++ fixedNames body queryParams headers) := by
  refine ((buildArguments_perm body queryParams headers).map _).trans ?_
  simp only [List.map_append, groupArgument_names, List.map_map]
  cases body <;> exact .refl _

theorem groupArgument_kind {name : String} {kind : ArgumentKind} {a : Argument}
    (h : a ∈ groupArgument name kind params) : a.kind = kind := by
  unfold groupArgument at h
  split at h
  · cases h
  · cases List.mem_singleton.mp h
    rfl

theorem buildArguments_pathParams (body : Option Body) (queryParams headers : List Param)
    {name : String} : (∃ a ∈ buildArguments params body queryParams headers,
      a.kind = .pathParam ∧ a.name = name) ↔ name ∈ params.map (·.name.camel) := by
  simp only [(buildArguments_perm body queryParams headers).mem_iff, List.mem_append]
  constructor
  · rintro ⟨a, mapped | ((given | given) | given), kind, rfl⟩
    · obtain ⟨p, listed, rfl⟩ := List.mem_map.mp mapped
      exact List.mem_map.mpr ⟨p, listed, rfl⟩
    · obtain ⟨b, _, rfl⟩ := Option.map_eq_some_iff.mp (Option.mem_toList.mp given)
      cases kind
    · cases (groupArgument_kind given).symm.trans kind
    · cases (groupArgument_kind given).symm.trans kind
  · intro listed
    obtain ⟨p, mem, rfl⟩ := List.mem_map.mp listed
    exact ⟨_, .inl (List.mem_map.mpr ⟨p, mem, rfl⟩), rfl, rfl⟩

end TypedClients
