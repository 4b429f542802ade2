import TypedClients.Proofs.Endpoints
import TypedClients.Proofs.Reachable
import TypedClients.Proofs.Validators

namespace TypedClients

namespace Arena

/-- Whatever the schema refers to in the larger arena is stored in the smaller one. -/
structure Suffices (small large : Arena) (r : SchemaRef) : Prop where
  covers : small.Covers r
  stored : ∀ n ∈ large.names, r.RefersTo n → n ∈ small.names

/-- The larger arena agrees with the smaller one, which refers to nothing outside of itself. -/
structure PartOf (small large : Arena) : Prop where
  find : ∀ n r, small.find? n = some r → large.find? n = some r
  complete : ∀ n r, small.find? n = some r → small.Suffices large r

namespace PartOf

variable {small large : Arena} (part : small.PartOf large) {n path : String} {busy : List String}
include part

theorem find?_eq (mem : n ∈ small.names) : large.find? n = small.find? n := by
  obtain ⟨r, found⟩ := Keyed.find?_of_mem_keys mem
  have found : small.find? n = some r := found
  rw [found, part.find n r found]

theorem names (mem : n ∈ small.names) : n ∈ large.names := by
  obtain ⟨r, found⟩ := Keyed.find?_of_mem_keys mem
  exact Keyed.mem_keys_of_find? (part.find n r found)

theorem items (h : ∀ b ∈ busy, ∃ s, small.find? b = some (.item s)) :
    ∀ b ∈ busy, ∃ s, large.find? b = some (.item s) := by
  intro b mem
  obtain ⟨s, found⟩ := h b mem
  exact ⟨s, part.find b _ found⟩

theorem deref_eq (items : ∀ b ∈ busy, ∃ s, small.find? b = some (.item s))
    (covers : small.Covers (.ref path)) :
    large.deref busy (.ref path) = small.deref busy (.ref path) := by
  obtain ⟨n, t, named, stands⟩ := covers path (.here path)
  obtain ⟨s, stored⟩ := stands.2
  rw [Arena.deref_eq items named stands stored,
    Arena.deref_eq (part.items items) named (stands.mono part.find) (part.find t _ stored)]

theorem isArray_eq {r : SchemaRef} (covers : small.Covers r) :
    large.isArray r = small.isArray r := by
  unfold isArray
  cases r with
  | item s =>
    unfold deref
    rw [derefFrom, derefFrom]
  | ref path =>
    rw [part.deref_eq _ covers]
    intro b none
    cases none

theorem found_iff {pending : List String}
    (known : ∀ m ∈ pending, m ∈ large.names → m ∈ small.names) :
    Found large.schemas pending n ↔ Found small.schemas pending n := by
  constructor
  · intro h
    -- What the walk finds in the larger arena is stored in the smaller one, so it goes on alike.
    induction h with
    | start h stored => exact .start h (known _ h stored)
    | @next m n s _ found refers stored ih =>
      have same : small.find? m = some s := (part.find?_eq ih.known).symm.trans found
      exact .next ih same refers ((part.complete m s same).stored n stored refers)
  · intro h
    induction h with
    | start h stored => exact .start h (part.names stored)
    | next _ found refers stored ih =>
      exact .next ih (part.find _ _ found) refers (part.names stored)

theorem reachable_eq {roots : List SchemaRef} (h : ∀ r ∈ roots, small.Suffices large r) :
    large.reachable roots = small.reachable roots := by
  apply Names.ofList_congr
  intro n
  rw [mem_gather, mem_gather]
  apply part.found_iff
  intro m mem stored
  obtain ⟨r, root, refers⟩ := List.mem_flatMap.mp mem
  exact (h r root).stored m stored (SchemaRef.mem_mentioned.mp refers)

theorem reachableFrom_eq (mem : n ∈ small.names) :
    large.reachableFrom n = small.reachableFrom n := by
  unfold reachableFrom
  rw [part.find?_eq mem]
  cases found : small.find? n with
  | none => rfl
  | some r =>
    apply part.reachable_eq
    intro s only
    rw [List.mem_singleton.mp only]
    exact part.complete n r found

end PartOf

end Arena

namespace Zod.Scope

variable {small large : Arena} {options : Options} {refs : RefStyle} {busy : List String}

theorem namedModel_eq (part : small.PartOf large) {path : String}
    (covers : small.Covers (.ref path)) (current : Option String) (sharedFile : Bool) :
    namedModel ⟨large, options, refs, busy⟩ current sharedFile path =
      namedModel ⟨small, options, refs, busy⟩ current sharedFile path := by
  obtain ⟨n, t, named, stands⟩ := covers path (.here path)
  unfold namedModel leadsBack
  rw [named]
  dsimp only
  rw [part.reachableFrom_eq stands.mem_names]

/-- Validators read no more of an arena than the part that their schema refers to. -/
theorem validate_eq (part : small.PartOf large)
    (items : ∀ b ∈ busy, ∃ s, small.find? b = some (.item s)) {r : SchemaRef}
    (covers : small.Covers r) (name : String) (required : Bool) :
    validate ⟨large, options, refs, busy⟩ r name required =
      validate ⟨small, options, refs, busy⟩ r name required := by
  induction busy, r using small.expansion_induction generalizing options name required with
  | item busy s ih =>
    rw [validate, validateSchema_eq, validate, validateSchema_eq]
    apply Recipe.ofSchema_congr
    intro b c name required held
    exact ih c held items (covers.inside held) name required
  | ref busy path ih =>
    cases refs with
    | named current sharedFile =>
      rw [validate_ref rfl, validate_ref rfl, namedModel_eq part covers]
    | inline =>
      obtain ⟨n, t, named, stands⟩ := covers path (.here path)
      obtain ⟨s, stored⟩ := stands.2
      rw [validate_reference rfl (part.items items) named (stands.mono part.find)
        (part.find t _ stored), validate_reference rfl items named stands stored]
      cases cut : busy.contains t with
      | true => rfl
      | false =>
        have inner : small.Covers (.item s) := (part.complete t _ stored).covers
        refine ih t s (Arena.contains_of_find? stored) cut (fun b mem => ?_) inner name required
        rcases List.mem_cons.mp mem with rfl | mem
        · exact ⟨s, stored⟩
        · exact items b mem

end Zod.Scope

variable {small large : Arena}

theorem Param.ofParameter_eq (part : small.PartOf large) (explode : Bool) {p : Parameter}
    (covers : ∀ r, p.schema = some r → small.Covers r) :
    Param.ofParameter large explode p = Param.ofParameter small explode p := by
  have array : p.schema.any large.isArray = p.schema.any small.isArray := by
    cases schema : p.schema with
    | none => rfl
    | some r => exact part.isArray_eq (covers r schema)
  unfold Param.ofParameter
  rw [array]

theorem Endpoint.build_eq (part : small.PartOf large) {shared : List (Referenced Parameter)}
    {op : Operation} (covers : ∀ (q : Parameter) r, (.item q ∈ shared ∨ .item q ∈ op.parameters) →
      q.schema = some r → small.Covers r) (target : Target) (route : String) (verb : Verb) :
    Endpoint.build large target route shared verb op =
      Endpoint.build small target route shared verb op := by
  have params : ∀ (l : ParameterLocation) (explode : Parameter → Bool),
      ((mergeParameters shared op.parameters).filter fun p => p.location == l).map
        (fun p => Param.ofParameter large (explode p) p) =
      ((mergeParameters shared op.parameters).filter fun p => p.location == l).map
        (fun p => Param.ofParameter small (explode p) p) := by
    intro l explode
    apply List.map_congr_left
    intro p located
    have given := mem_mergeParameters (List.mem_filter.mp located).1
    exact Param.ofParameter_eq part _ fun r schema => covers p r given schema
  unfold Endpoint.build
  dsimp only
  have path := params .path fun _ => false
  have header := params .header fun _ => false
  rw [path, params .query, header]

theorem buildEndpoints_eq {resolved other : Resolved} (part : resolved.arena.PartOf other.arena)
    (paths : other.document.paths = resolved.document.paths)
    (covers : ∀ r, resolved.document.Uses r → resolved.arena.Covers r) (target : Target) :
    buildEndpoints other target = buildEndpoints resolved target := by
  unfold buildEndpoints
  rw [paths]
  apply Outcome.mapM_congr
  intro selected mem
  obtain ⟨route, item, verb, op⟩ := selected
  obtain ⟨listed, own⟩ := mem_selectedOperations mem
  apply Endpoint.build_eq part
  intro q r given schema
  apply covers
  rcases given with shared | parameter
  · exact .path listed (.parameter shared schema)
  · exact .path listed (.operation own (.parameter parameter schema))

end TypedClients
