import TypedClients.Proofs.Arguments
import TypedClients.Proofs.Overwriting
import TypedClients.Proofs.Resolution

namespace TypedClients

open Outcome

def lastDeclared? (declared : List Parameter) (key : String × ParameterLocation) :
    Option Parameter :=
  declared.reverse.find? fun p => p.key = key

/-- The keys of one location, in the order in which they are first declared. -/
def keysAt (location : ParameterLocation) (declared : List Parameter) :
    List (String × ParameterLocation) :=
  (declared.map Parameter.key).eraseDups.filter fun key => key.2 = location

/-- What is left of a list of declarations in which the same parameter may come again. -/
structure Merges (declared merged : List Parameter) : Prop where
  keys : merged.map Parameter.key = (declared.map Parameter.key).eraseDups
  last : ∀ p ∈ merged, lastDeclared? declared p.key = some p

theorem insertParameter_eq (p : Parameter) (ps : List Parameter) :
    insertParameter p ps = overwrite Parameter.key p ps := by
  induction ps with
  | nil => rfl
  | cons q rest ih => rw [insertParameter, overwrite, ih]

theorem foldl_insertParameter_merges (declared : List Parameter) :
    Merges declared (declared.foldl (fun acc p => insertParameter p acc) []) := by
  have overwrites : Overwrites Parameter.key declared _ := Overwrites.nil.putAll declared
  simp only [insertParameter_eq]
  exact ⟨overwrites.keys, overwrites.last⟩

theorem Merges.located {declared merged : List Parameter} (h : Merges declared merged)
    (location : ParameterLocation) :
    List.Forall₂ (fun key p => lastDeclared? declared key = some p) (keysAt location declared)
      (merged.filter fun p => p.location == location) := by
  have keys : keysAt location declared =
      (merged.filter fun p => p.location == location).map Parameter.key := by
    rw [keysAt, ← h.keys, List.filter_map]
    rfl
  rw [keys, List.forall₂_map_left_iff, List.forall₂_same]
  exact fun p mem => h.last p (List.mem_filter.mp mem).1

theorem filter_insertParameter (location : ParameterLocation) (p : Parameter)
    (ps : List Parameter) :
    (insertParameter p ps).filter (fun q => q.location == location) =
      if p.location = location then
        insertParameter p (ps.filter fun q => q.location == location)
      else ps.filter fun q => q.location == location := by
  induction ps with
  | nil => simp [insertParameter, List.filter_cons]
  | cons first rest ih =>
    rw [insertParameter]
    by_cases same : first.key = p.key
    · have place : first.location = p.location := congrArg Prod.snd same
      by_cases here : p.location = location <;>
        simp [same, place, here, insertParameter]
    · by_cases there : first.location = location <;>
        by_cases here : p.location = location <;>
          simp [same, there, here, insertParameter, ih]

theorem filter_foldl_insertParameter (location : ParameterLocation) (ps acc : List Parameter) :
    (ps.foldl (fun acc p => insertParameter p acc) acc).filter (fun q => q.location == location) =
      (ps.filter fun q => q.location == location).foldl (fun acc p => insertParameter p acc)
        (acc.filter fun q => q.location == location) := by
  induction ps generalizing acc with
  | nil => rfl
  | cons p rest ih =>
    rw [List.foldl_cons, ih, filter_insertParameter, List.filter_cons]
    by_cases here : p.location = location <;> simp [here]

def withoutCookies (rs : List (Referenced Parameter)) : List (Referenced Parameter) :=
  rs.filter fun r => !r.item?.any fun p => p.location == .cookie

theorem mergeParameters_withoutCookies {location : ParameterLocation}
    (other : location ≠ .cookie) (shared own : List (Referenced Parameter)) :
    (mergeParameters (withoutCookies shared) (withoutCookies own)).filter
        (fun p => p.location == location) =
      (mergeParameters shared own).filter fun p => p.location == location := by
  unfold mergeParameters withoutCookies
  rw [filter_foldl_insertParameter, filter_foldl_insertParameter, ← List.filter_append,
    List.filterMap_filter, List.filter_filterMap, List.filter_filterMap]
  congr 2
  funext r
  cases h : r.item? with
  | none => simp
  | some p =>
    by_cases cookie : p.location = .cookie
    · simp [cookie, Ne.symm other, Option.filter]
    · simp [cookie]

/-- What has the same rank stays in its order. -/
structure StablySorted {α : Type} (rank : α → Nat) (before after : List α) : Prop where
  sorted : after.Pairwise fun a b => rank a ≤ rank b
  stable : ∀ n, (after.filter fun a => rank a = n) = before.filter fun a => rank a = n

namespace StablySorted

variable {α : Type} {rank : α → Nat} {before after : List α}

theorem head_le {a : α} {rest : List α} (h : StablySorted rank before (a :: rest)) {b : α}
    (mem : b ∈ before) : rank a ≤ rank b := by
  have level : b ∈ before.filter fun c => rank c = rank b := List.mem_filter.mpr ⟨mem, by simp⟩
  rw [← h.stable] at level
  rcases List.mem_cons.mp (List.mem_filter.mp level).1 with rfl | later
  · exact Nat.le_refl _
  · exact (List.pairwise_cons.mp h.sorted).1 b later

/-- Nothing is left open by the order of ranks and that within each of them. -/
theorem unique {other : List α} (h : StablySorted rank before after)
    (g : StablySorted rank before other) : after = other := by
  have same : StablySorted rank after other :=
    ⟨g.sorted, fun n => (g.stable n).trans (h.stable n).symm⟩
  have sorted := h.sorted
  clear h g
  induction after generalizing other with
  | nil =>
    cases other with
    | nil => rfl
    | cons b rest =>
      have level := same.stable (rank b)
      simp at level
  | cons a rest ih =>
    cases other with
    | nil =>
      have level := same.stable (rank a)
      simp at level
    | cons b others =>
      have below := same.head_le List.mem_cons_self
      have above := (StablySorted.mk sorted fun n => (same.stable n).symm).head_le
        (List.mem_cons_self (a := b))
      have level := Nat.le_antisymm above below
      obtain rfl : b = a := by
        have both := same.stable (rank a)
        simp [level] at both
        exact both.1
      have remaining := (List.pairwise_cons.mp same.sorted).2
      refine congrArg _ (ih ⟨remaining, fun n => ?_⟩ (List.pairwise_cons.mp sorted).2)
      have both := same.stable n
      rw [List.filter_cons, List.filter_cons] at both
      split at both
      · exact List.tail_eq_of_cons_eq both
      · exact both

theorem mergeSort (rank : α → Nat) (before : List α) :
    StablySorted rank before (before.mergeSort fun a b => rank a ≤ rank b) := by
  have trans : ∀ a b c : α, decide (rank a ≤ rank b) = true → decide (rank b ≤ rank c) = true →
      decide (rank a ≤ rank c) = true := by
    simp only [decide_eq_true_eq]
    exact fun _ _ _ => Nat.le_trans
  have total : ∀ a b : α, (decide (rank a ≤ rank b) || decide (rank b ≤ rank a)) = true := by
    simp only [Bool.or_eq_true, decide_eq_true_eq]
    exact fun a b => Nat.le_total _ _
  constructor
  · simpa using List.pairwise_mergeSort trans total before
  · intro n
    have level : (before.filter fun a => rank a = n).Pairwise
        fun a b => decide (rank a ≤ rank b) = true := by
      apply List.pairwise_of_forall_mem_list
      intro a ha b hb
      have first : rank a = n := by simpa using (List.mem_filter.mp ha).2
      have second : rank b = n := by simpa using (List.mem_filter.mp hb).2
      simp [first, second]
    have kept := (List.sublist_mergeSort trans total level List.filter_sublist).filter
      fun a => rank a = n
    simp only [List.filter_filter, Bool.and_self] at kept
    refine (kept.eq_of_length ?_).symm
    exact ((List.mergeSort_perm before _).filter _).length_eq.symm

theorem filter_append (wanted : α → Bool) (before : List α) :
    StablySorted (fun a => if wanted a then 0 else 1) before
      (before.filter wanted ++ before.filter fun a => !wanted a) := by
  have first : ∀ a ∈ before.filter wanted, wanted a = true := fun a mem =>
    (List.mem_filter.mp mem).2
  have later : ∀ a ∈ before.filter fun a => !wanted a, wanted a = false := fun a mem => by
    simpa using (List.mem_filter.mp mem).2
  constructor
  · refine List.pairwise_append.mpr ⟨?_, ?_, ?_⟩
    · apply List.pairwise_of_forall_mem_list
      exact fun a ha b hb => by simp [first a ha]
    · apply List.pairwise_of_forall_mem_list
      exact fun a ha b hb => by simp [later a ha, later b hb]
    · exact fun a ha b hb => by simp [first a ha]
  · intro n
    rw [List.filter_append, List.filter_filter, List.filter_filter]
    match n with
    | 0 => simp
    | 1 => simp
    | n + 2 =>
      have none : ∀ a, ¬(if wanted a then 0 else 1) = n + 2 := by
        intro a
        split <;> omega
      simp [none]

end StablySorted

namespace Arena

/-- The schema itself, or the stored one to which the aliases lead. -/
inductive ComesTo (arena : Arena) : SchemaRef → Schema → Prop
  | itself (s : Schema) : ComesTo arena (.item s) s
  | chain {path n t : String} {s : Schema} (named : Pointer.schemaName? path = some n)
      (stands : arena.StandsFor n t) (stored : arena.find? t = some (.item s)) :
      ComesTo arena (.ref path) s

variable {arena : Arena} {r : SchemaRef}

theorem derefFrom_sound {busy : List String} {unvisited : List (String × SchemaRef)}
    {name found : Option String} {s : Schema}
    (part : ∀ k r, Keyed.find? k unvisited = some r → arena.find? k = some r)
    (h : arena.derefFrom busy unvisited name r = .ok (.schema found s)) : arena.ComesTo r s := by
  fun_induction derefFrom arena busy unvisited name r with
  | case1 =>
    cases h
    exact .itself _
  | case2 => cases h
  | case3 => cases h
  | case4 => cases h
  | case5 => cases h
  | case6 unvisited _ path n named _ _ target stored ih =>
    have stored := part _ _ stored
    cases ih (fun k r stays => part k r (Keyed.find?_of_find?_erase stays)) h with
    | itself => exact .chain named (.item stored) stored
    | chain next stands last => exact .chain named (.alias ⟨_, stored, next⟩ stands) last

theorem isArray_iff : arena.isArray r = true ↔ ∃ s, arena.ComesTo r s ∧ s.isArray = true := by
  unfold isArray
  constructor
  · intro h
    split at h
    · rename_i name s run
      exact ⟨s, derefFrom_sound (fun _ _ found => found) run, h⟩
    · cases h
  · rintro ⟨s, comes, array⟩
    cases comes with
    | itself =>
      rw [deref, derefFrom]
      exact array
    | chain named stands stored =>
      rw [deref_eq (fun _ none => absurd none List.not_mem_nil) named stands stored]
      exact array

end Arena

structure Param.Declares (q : Param) (p : Parameter) : Prop where
  name : q.name = Name.ofText p.name
  wire : q.wire = p.name
  type : q.type = schemaType p.schema
  schema : q.schema = p.schema
  required : q.required = true ↔ p.required = true ∨ p.location = .path
  description : q.description = p.description
  deprecated : q.deprecated = p.deprecated

theorem Param.ofParameter_declares (arena : Arena) (explode : Bool) (p : Parameter) :
    (ofParameter arena explode p).Declares p :=
  ⟨rfl, rfl, rfl, rfl, by simp [ofParameter, Parameter.isRequired], rfl, rfl⟩

/-- Whether a query spells its arrays out where their declarations leave that open: the entry of the
operation decides, then its tags in order, then the target. -/
def Target.explodeFlag (target : Target) (key : String) (tags : List String) : Bool :=
  let entries := (Keyed.find? key target.overrides.operations).toList ++
    tags.filterMap fun t => Keyed.find? t target.overrides.tags
  (entries.findSome? (·.explodeArrays)).getD target.explodeArrays

theorem foldl_orElse_explodeArrays (entries : List OperationOverride) (first : OperationOverride) :
    (entries.foldl OperationOverride.orElse first).explodeArrays =
      (first :: entries).findSome? (·.explodeArrays) := by
  induction entries generalizing first with
  | nil => cases h : first.explodeArrays <;> simp [h]
  | cons second rest ih =>
    rw [List.foldl_cons, ih]
    cases h : first.explodeArrays <;> simp [OperationOverride.orElse, List.findSome?_cons, h]

theorem resolve_explodeArrays (target : Target) (key : String) (tags : List String) :
    (target.overrides.resolve key tags).explodeArrays.getD target.explodeArrays =
      target.explodeFlag key tags := by
  unfold Overrides.resolve Target.explodeFlag
  rw [foldl_orElse_explodeArrays]
  cases Keyed.find? key target.overrides.operations <;> rfl

theorem foldl_addPlaceholder_eq (names : List String) (params : List Param) :
    names.foldl addPlaceholder params =
      params ++ (names.eraseDups.filter (· ∉ wires params)).map .undeclared := by
  induction names using List.reverseRecOn with
  | nil => simp
  | append_singleton earlier name ih =>
    have known : name ∈ wires (params ++
        (earlier.eraseDups.filter (· ∉ wires params)).map .undeclared) ↔
          name ∈ wires params ∨ name ∈ earlier := by
      have added : wires ((earlier.eraseDups.filter (· ∉ wires params)).map .undeclared) =
          earlier.eraseDups.filter (· ∉ wires params) := by
        rw [wires, List.map_map]
        exact List.map_id _
      rw [wires, List.map_append, List.mem_append]
      rw [← wires, ← wires, added, List.mem_filter, List.mem_eraseDups]
      by_cases declared : name ∈ wires params <;> simp [declared]
    rw [List.foldl_append, List.foldl_cons, List.foldl_nil, ih, eraseDups_concat, addPlaceholder]
    simp only [any_wire, known]
    by_cases declared : name ∈ wires params <;> by_cases again : name ∈ earlier <;>
      simp [declared, again]

/-- The parameters of a location as one object, which can be left out if each of them can. -/
def objectArgument (name : String) (kind : ArgumentKind) : List Param → List Argument
  | [] => []
  | p :: rest =>
    [{ name, kind
       type := .object ((p :: rest).map fun q => (q.wire, q.type, q.required))
       required := (p :: rest).any (·.required) }]

theorem groupArgument_eq (name : String) (kind : ArgumentKind) (params : List Param) :
    groupArgument name kind params = objectArgument name kind params := by
  cases params with
  | nil => rfl
  | cons p rest => rfl

/-- The arguments of a function in the order in which they are made. -/
def Endpoint.listedArguments (e : Endpoint) : List Argument :=
  e.pathParams.map (fun p => .mk p.name.camel .pathParam p.type true) ++
    (e.body.map fun b => Argument.mk "body" .body b.type b.required).toList ++
    objectArgument "params" .params e.queryParams ++ objectArgument "headers" .headers e.headers

/-- The parameter is an array, and asks itself for its items to be spelled out or leaves it to the
flag. -/
def Parameter.SpelledOut (arena : Arena) (flag : Bool) (p : Parameter) : Prop :=
  (∃ r s, p.schema = some r ∧ arena.ComesTo r s ∧ s.isArray = true) ∧
    (p.explode = some true ∨ flag = true)

theorem explode_ofParameter {arena : Arena} {flag : Bool} {p : Parameter} :
    (Param.ofParameter arena (p.explodes flag) p).explode = true ↔ p.SpelledOut arena flag := by
  unfold Param.ofParameter Parameter.SpelledOut Parameter.explodes
  simp [Option.any_eq_true, Arena.isArray_iff]

/-- The entry says what the last declaration under the key does. -/
def EntryFor (declared : List Parameter) (explodes : Parameter → Prop)
    (key : String × ParameterLocation) (q : Param) : Prop :=
  ∃ p, lastDeclared? declared key = some p ∧ q.Declares p ∧ (q.explode = true ↔ explodes p)

def requiredString (name : String) : Param where
  name := Name.ofText name
  wire := name
  type := .string
  schema := none
  required := true
  description := none
  deprecated := false
  explode := false

/-- One entry stands for each declared parameter, in the list of its location. -/
structure Endpoint.Takes (e : Endpoint) (arena : Arena) (route : String) (flag : Bool)
    (declared : List Parameter) : Prop where
  query : List.Forall₂ (EntryFor declared (Parameter.SpelledOut arena flag))
    (keysAt .query declared) e.queryParams
  headers : List.Forall₂ (EntryFor declared fun _ => False) (keysAt .header declared) e.headers
  path : ∃ own, List.Forall₂ (EntryFor declared fun _ => False) (keysAt .path declared) own ∧
    StablySorted (fun q => (placeholders route).idxOf q.wire)
      (own ++ ((placeholders route).eraseDups.filter (· ∉ wires own)).map requiredString)
      e.pathParams
  arguments : StablySorted (fun a => if a.required then 0 else 1) e.listedArguments e.arguments

namespace Endpoint

variable {arena : Arena} {target : Target} {route : String} {verb : Verb} {op : Operation}
  {shared : List (Referenced Parameter)} {e : Endpoint}

theorem build_queryParams (h : build arena target route shared verb op = .ok e) :
    e.queryParams =
      ((mergeParameters shared op.parameters).filter fun p => p.location == .query).map fun p =>
        .ofParameter arena (p.explodes
          (target.explodeFlag (op.operationId.getD (rawName target verb route op)) op.tags)) p := by
  unfold build at h
  simp only [bind_eq_ok, pure_eq_ok] at h
  obtain ⟨_, _, rfl⟩ := h
  rw [← resolve_explodeArrays]

theorem build_headers (h : build arena target route shared verb op = .ok e) :
    e.headers = ((mergeParameters shared op.parameters).filter fun p =>
      p.location == .header).map (.ofParameter arena false) := by
  unfold build at h
  simp only [bind_eq_ok, pure_eq_ok] at h
  obtain ⟨_, _, rfl⟩ := h
  rfl

theorem build_takes {declared : List Parameter}
    (h : build arena target route shared verb op = .ok e)
    (listed : shared ++ op.parameters = declared.map .item) :
    e.Takes arena route
      (target.explodeFlag (op.operationId.getD (rawName target verb route op)) op.tags)
      declared := by
  have merges : Merges declared (mergeParameters shared op.parameters) := by
    have items : (shared ++ op.parameters).filterMap Referenced.item? = declared := by
      rw [listed, List.filterMap_map]
      exact List.filterMap_some
    unfold mergeParameters
    rw [items]
    exact foldl_insertParameter_merges declared
  obtain ⟨_, path, arguments⟩ := build_parts h
  have plain : ∀ location, List.Forall₂ (EntryFor declared fun _ => False)
      (keysAt location declared)
      (((mergeParameters shared op.parameters).filter fun p => p.location == location).map
        (Param.ofParameter arena false)) := by
    intro location
    rw [List.forall₂_map_right_iff]
    refine (merges.located location).imp fun key p last => ⟨p, last, ?_, ?_⟩
    · exact Param.ofParameter_declares arena false p
    · simp [Param.ofParameter]
  constructor
  · rw [build_queryParams h, List.forall₂_map_right_iff]
    refine (merges.located .query).imp fun key p last => ⟨p, last, ?_, explode_ofParameter⟩
    exact Param.ofParameter_declares arena _ p
  · rw [build_headers h]
    exact plain .header
  · refine ⟨_, plain .path, ?_⟩
    rw [path, orderPathParams, foldl_addPlaceholder_eq]
    exact .mergeSort _ _
  · rw [arguments, listedArguments, ← groupArgument_eq, ← groupArgument_eq]
    exact .filter_append Argument.required _

theorem build_withoutCookies :
    build arena target route (withoutCookies shared) verb
        { op with parameters := withoutCookies op.parameters } =
      build arena target route shared verb op := by
  unfold build
  have kept : ∀ location, location ≠ .cookie →
      (mergeParameters (withoutCookies shared) (withoutCookies op.parameters)).filter
          (fun p => p.location == location) =
        (mergeParameters shared op.parameters).filter fun p => p.location == location :=
    fun location other => mergeParameters_withoutCookies other shared op.parameters
  simp only [kept .path (by decide), kept .query (by decide), kept .header (by decide)]
  rfl

end Endpoint

theorem items_of_inlined {α : Type} {rs : List (Referenced α)}
    (items : ∀ r ∈ rs, ∃ a, r = .item a) :
    ∃ as : List α, rs = as.map .item := by
  induction rs with
  | nil => exact ⟨[], rfl⟩
  | cons r rest ih =>
    obtain ⟨a, rfl⟩ := items r List.mem_cons_self
    obtain ⟨as, rfl⟩ := ih fun r mem => items r (List.mem_cons_of_mem _ mem)
    exact ⟨a :: as, rfl⟩

/-- Every operation of a resolved document has a client that takes the parameters of its path and
its own. Those that are sent in cookies make no difference to it. -/
theorem Document.resolve_takes {doc : Document} {resolved : Resolved}
    (h : doc.resolve = .ok resolved) (target : Target) {route : String} {item : PathItem}
    (listed : (route, item) ∈ resolved.document.paths) {verb : Verb} {op : Operation}
    (own : (verb, op) ∈ item.operations) :
    ∃ (e : Endpoint) (declared : List Parameter),
      Endpoint.build resolved.arena target route item.parameters verb op = .ok e ∧
      item.parameters ++ op.parameters = declared.map .item ∧
      e.Takes resolved.arena route
        (target.explodeFlag (op.operationId.getD (rawName target verb route op)) op.tags)
        declared ∧
      Endpoint.build resolved.arena target route (withoutCookies item.parameters) verb
        { op with parameters := withoutCookies op.parameters } = .ok e := by
  have inlined := (resolve_paths_checked h listed).1
  have inlined_own := inlined.operations _ _ own
  obtain ⟨e, built⟩ :=
    Endpoint.build_total inlined_own resolved.arena target route item.parameters verb
  have both : ∀ r ∈ item.parameters ++ op.parameters, ∃ p, r = .item p := fun r mem =>
    (List.mem_append.mp mem).elim (inlined.parameters r) (inlined_own.parameters r)
  obtain ⟨declared, items⟩ := items_of_inlined both
  exact ⟨e, declared, built, items, Endpoint.build_takes built items,
    Endpoint.build_withoutCookies.trans built⟩

def labels : Schema := { type := some (.single .array) }

def shelfTag : Parameter := { name := "tag", location := .query, schema := some (.item labels) }

def ownTag : Parameter := { shelfTag with required := true, explode := some true }

def shelfParameters : List Parameter :=
  [shelfTag, { name := "session", location := .cookie }, { name := "book", location := .path }]

def shelfOperation : Operation := { parameters := [.item ownTag] }

def shelves : Document where
  openapi := "3.0.3"
  info := { title := "Shelves", version := "1" }
  paths := [("/\x7bshelf\x7d/\x7bbook\x7d",
    { parameters := shelfParameters.map .item, operations := [(.get, shelfOperation)] })]

theorem shelves_resolve : shelves.resolve = .ok ⟨shelves, ⟨[]⟩⟩ := by
  have checked : ∀ location, checkSchema shelves.declares location (.item labels) =
      .ok (.item labels) := by
    intro location
    rw [checkSchema_of_named]
    · simp [labels, normalRef, normalSchema, normalTable, normalList, normalOption,
        normalAdditional]
    · intro path mentioned
      cases mentioned with
      | inside held _ =>
        obtain ⟨_, child⟩ := Schema.holds_iff_child.mp held
        cases child
  have operation : ∀ location, shelves.resolveOperation location shelfOperation =
      .ok shelfOperation := by
    intro location
    simp [shelfOperation, ownTag, shelfTag, Document.resolveOperation, Document.resolveParameters,
      Document.resolveParameter, Document.resolveOptionalBody, ComponentTable.follow,
      ComponentTable.followFrom, Document.checkOption, checked, bind, Except.bind, Except.map, pure,
      Except.pure]
  have shared : ∀ location, shelves.resolveParameters location (shelfParameters.map .item) =
      .ok (shelfParameters.map .item) := by
    intro location
    simp [shelfParameters, shelfTag, Document.resolveParameters,
      Document.resolveParameter, ComponentTable.follow,
      ComponentTable.followFrom, Document.checkOption, checked, bind, Except.bind, Except.map, pure,
      Except.pure]
  have paths : shelves.resolvePaths = .ok shelves.paths := by
    unfold Document.resolvePaths
    show [(_, _)].mapM _ = _
    simp only [Document.resolvePathItem, shared, List.mapM_cons, List.mapM_nil, operation, bind,
      Except.bind, pure, Except.pure]
    rfl
  have none : shelves.declaredSchemas = [] := rfl
  exact Document.resolve_of_plain paths (by simp [none]) (by simp [none]) (by simp [none])

theorem Document.resolve_takes_shelves : ∃ (e : Endpoint) (tag book : Param),
    Endpoint.build ⟨[]⟩ {} "/\x7bshelf\x7d/\x7bbook\x7d" (shelfParameters.map .item) .get
        shelfOperation = .ok e ∧
      e.queryParams = [tag] ∧ tag.required = true ∧ tag.explode = true ∧ e.headers = [] ∧
      e.pathParams = [requiredString "shelf", book] ∧
      book.Declares { name := "book", location := .path } := by
  obtain ⟨e, declared, built, items, takes, _⟩ :=
    resolve_takes shelves_resolve {} List.mem_cons_self List.mem_cons_self
  cases List.map_injective_iff.mpr (fun _ _ => Referenced.item.inj)
    (show (shelfParameters ++ [ownTag]).map Referenced.item = _ from items)
  obtain ⟨query, headers, ⟨own, path, sorted⟩, _⟩ := takes
  have query_keys : keysAt .query (shelfParameters ++ [ownTag]) = [("tag", .query)] := by decide
  have header_keys : keysAt .header (shelfParameters ++ [ownTag]) = [] := by decide
  have path_keys : keysAt .path (shelfParameters ++ [ownTag]) = [("book", .path)] := by decide
  rw [query_keys] at query
  rw [header_keys] at headers
  rw [path_keys] at path
  obtain ⟨tag, _, tag_entry, no_more, query⟩ := List.forall₂_cons_left_iff.mp query
  cases List.forall₂_nil_left_iff.mp no_more
  obtain ⟨book, _, book_entry, no_more, rfl⟩ := List.forall₂_cons_left_iff.mp path
  cases List.forall₂_nil_left_iff.mp no_more
  obtain ⟨_, last, tag_declares, tag_explodes⟩ := tag_entry
  cases (show some ownTag = _ from last)
  obtain ⟨_, last, book_declares, _⟩ := book_entry
  cases (show some (Parameter.mk "book" .path none false false none none) = _ from last)
  refine ⟨e, tag, book, built, query, tag_declares.required.mpr (.inl rfl), ?_,
    List.forall₂_nil_left_iff.mp headers, ?_, book_declares⟩
  · exact tag_explodes.mpr ⟨⟨_, labels, rfl, .itself labels, by decide⟩, .inl rfl⟩
  · have wire : book.wire = "book" := book_declares.wire
    have holes : placeholders "/\x7bshelf\x7d/\x7bbook\x7d" = ["shelf", "book"] := by decide
    have missing : (["shelf", "book"].eraseDups.filter (· ∉ wires [book])) = ["shelf"] := by
      simp [wires, wire]
      decide
    rw [holes, missing] at sorted
    refine sorted.unique ⟨?_, fun n => ?_⟩
    · simp [wire, requiredString]
    · rcases n with _ | _ | n <;> simp [wire, requiredString]

end TypedClients
