import TypedClients.Proofs.Places

namespace TypedClients

def Pointer.Sound (known : String → Bool) (path : String) : Prop :=
  ∃ n, Pointer.Names path n ∧ known n = true

theorem referenceFault?_eq_none_iff {known : String → Bool} {site : String × String} :
    referenceFault? known site = none ↔ Pointer.Sound known site.2 := by
  rw [referenceFault?_eq_none]
  simp only [Pointer.Sound, Pointer.schemaName?_eq_some]

/-- What is wrong with a reference that is not sound, and where it stands. -/
inductive Blames (known : String → Bool) (location path : String) : ResolveError → Prop where
  | malformed (h : ∀ n, ¬ Pointer.Names path n) :
    Blames known location path (.invalidFormat path location)
  | unknown {n : String} (named : Pointer.Names path n) (h : known n = false) :
    Blames known location path (.targetNotFound path location)

theorem blames_of_fault {known : String → Bool} {site : String × String} {e : ResolveError}
    (h : referenceFault? known site = some e) : Blames known site.1 site.2 e := by
  unfold referenceFault? at h
  split at h
  · rename_i unnamed
    cases h
    refine .malformed fun n named => ?_
    rw [Pointer.schemaName?_eq_some.mpr named] at unnamed
    cases unnamed
  · rename_i n named
    split at h
    · cases h
    · rename_i fresh
      cases h
      exact .unknown (Pointer.schemaName?_eq_some.mp named) (Bool.eq_false_iff.mpr fresh)

namespace SchemaRef

variable {known : String → Bool} {location : String} {r t : SchemaRef} {e : ResolveError}

/-- The same schema but for the spelling of its references: the same keywords, the same slots in
the same order, and each reference respelled where it stands. -/
inductive Respells : SchemaRef → SchemaRef → Prop where
  | ref {path n : String} (named : Pointer.Names path n) :
    Respells (.ref path) (.ref (Pointer.ofSchema n))
  | item {s t : Schema} (keywords : t.toKeywords = s.toKeywords)
    (allowed : ∀ b, t.additionalProperties = some (.allowed b) ↔
      s.additionalProperties = some (.allowed b))
    (slots : t.children.map Prod.fst = s.children.map Prod.fst)
    (inside : ∀ (k : Nat) slot c d, s.children[k]? = some (slot, c) →
      t.children[k]? = some (slot, d) → Respells c d) : Respells (.item s) (.item t)

theorem respells_normalRef (h : ∀ path, r.Mentions path → ∃ n, Pointer.Names path n) :
    r.Respells (normalRef r) := by
  induction r using SchemaRef.induction with
  | ref path =>
    obtain ⟨n, named⟩ := h path (.here path)
    rw [normalRef, normalReference, Pointer.schemaName?_eq_some.mpr named]
    exact .ref named
  | item s ih =>
    rw [normalRef]
    refine .item ?_ ?_ ?_ ?_
    · cases s
      rw [normalSchema]
    · intro b
      cases s with
      | mk keywords properties additional =>
        rw [normalSchema]
        rcases additional with _ | _ | _ <;> simp [normalAdditional]
    · rw [Schema.children_normalSchema, List.map_map]
      rfl
    · intro k slot c d here there
      rw [Schema.children_normalSchema, List.getElem?_map, here] at there
      cases there
      have held := Schema.holds_iff_child.mpr ⟨slot, List.mem_of_getElem? here⟩
      exact ih c held fun path mentioned => h path (.inside held mentioned)

/-- The first reference in walk order that is not sound, with the way to it. -/
structure FirstUnsound (r : SchemaRef) (known : String → Bool) (way : List Slot) (path : String) :
    Prop where
  unsound : ¬ Pointer.Sound known path
  first : ∃ before after, r.references = before ++ (way, path) :: after ∧
    ∀ site ∈ before, Pointer.Sound known site.2

theorem checkSchema_succeeds_iff : (∃ t, checkSchema known location r = .ok t) ↔
    ∀ path, r.Mentions path → Pointer.Sound known path := by
  constructor
  · rintro ⟨t, run⟩ path mentioned
    obtain ⟨_, clean⟩ := checkSchema_eq_ok.mp run
    obtain ⟨place, site⟩ := mem_sites.mpr mentioned
    exact referenceFault?_eq_none_iff.mp (clean (place, path) site)
  · intro sound
    refine ⟨normalRef r, checkSchema_eq_ok.mpr ⟨rfl, fun site listed => ?_⟩⟩
    exact referenceFault?_eq_none_iff.mpr (sound site.2 (mem_sites.mp ⟨site.1, listed⟩))

theorem checkSchema_blames (run : checkSchema known location r = .error e) :
    ∃ way path, r.FirstUnsound known way path ∧
      Blames known (location ++ pointerOf way) path e := by
  unfold checkSchema at run
  split at run
  · rename_i fault found
    cases run
    rw [sites_eq, List.findSome?_map, List.findSome?_eq_some_iff] at found
    obtain ⟨before, ⟨way, path⟩, after, walk, fault, earlier⟩ := found
    refine ⟨way, path, ⟨fun sound => ?_, before, after, walk, fun site listed => ?_⟩,
      blames_of_fault fault⟩
    · rw [Function.comp_apply, referenceFault?_eq_none_iff.mpr sound] at fault
      cases fault
    · exact referenceFault?_eq_none_iff.mp (earlier site listed)
  · cases run

/-- A check succeeds exactly if every reference is sound, and then it respells them and changes
nothing else. Otherwise it blames the first that is not, with a pointer that leads to its place and
to no other. Schemas that are read have every name once. -/
theorem checkSchema_reports (known : String → Bool) (location : String) (distinct : r.Distinct) :
    ((∃ t, checkSchema known location r = .ok t) ↔
      ∀ path, r.Mentions path → Pointer.Sound known path) ∧
    (∀ t, checkSchema known location r = .ok t → r.Respells t) ∧
    (∀ e, checkSchema known location r = .error e → ∃ way path,
      r.FirstUnsound known way path ∧ r.lookup? (pointerOf way) = some (way, .ref path) ∧
        Blames known (location ++ pointerOf way) path e) ∧
    (∀ way path, (way, path) ∈ r.references ↔ r.follow way = some (.ref path)) ∧
    (r.references.map Prod.fst).Nodup ∧ Function.Injective pointerOf ∧
    ∀ (d : Datum) (source : SchemaRef), SchemaRef.read d = some source → source.Distinct := by
  refine ⟨checkSchema_succeeds_iff, fun t run => ?_, fun e run => ?_,
    fun _ _ => mem_references distinct, nodup_references distinct, pointerOf_injective,
    fun _ _ => read_distinct⟩
  · have sound := checkSchema_succeeds_iff.mp ⟨t, run⟩
    rw [(checkSchema_eq_ok.mp run).1]
    exact respells_normalRef fun path mentioned => (sound path mentioned).imp fun _ => And.left
  · obtain ⟨way, path, first, blamed⟩ := checkSchema_blames run
    obtain ⟨before, after, walk, _⟩ := first.first
    have stands : r.follow way = some (.ref path) := by
      refine (mem_references distinct).mp ?_
      rw [walk]
      exact List.mem_append_right before List.mem_cons_self
    exact ⟨way, path, first, lookup?_pointerOf stands, blamed⟩

def litter : Schema where
  allOf := [.ref "#/definitions/Pet", .ref "Cat"]

def kennel : Schema where
  properties := [("a/b", .item litter)]

theorem kennel_distinct : Distinct (.item kennel) := by
  refine distinct_item ⟨by decide, .nil, .nil, .nil⟩ fun c held => ?_
  obtain ⟨slot, child⟩ := Schema.holds_iff_child.mp held
  have child : (slot, c) ∈ [(Slot.property "a/b", Referenced.item litter)] := child
  cases List.mem_singleton.mp child
  refine distinct_item ⟨.nil, .nil, .nil, .nil⟩ fun c held => ?_
  obtain ⟨slot, child⟩ := Schema.holds_iff_child.mp held
  have child : (slot, c) ∈ [(Slot.allOf 0, Referenced.ref "#/definitions/Pet"),
    (Slot.allOf 1, Referenced.ref "Cat")] := child
  simp only [List.mem_cons, List.not_mem_nil, or_false, Prod.mk.injEq] at child
  rcases child with ⟨_, rfl⟩ | ⟨_, rfl⟩ <;> exact distinct_ref _

theorem checkSchema_reports_kennel : Distinct (.item kennel) ∧
    checkSchema (· == "Pet") "#/kennel" (.item kennel) =
      .error (.invalidFormat "Cat" "#/kennel/properties/a~1b/allOf/1") ∧
    ∃ way, "#/kennel" ++ pointerOf way = "#/kennel/properties/a~1b/allOf/1" ∧
      lookup? (.item kennel) (pointerOf way) = some (way, .ref "Cat") := by
  have inner : litter.children = [(.allOf 0, .ref "#/definitions/Pet"), (.allOf 1, .ref "Cat")] :=
    rfl
  have outer : kennel.children = [(.property "a/b", .item litter)] := rfl
  have sites : sites "#/kennel" (.item kennel) =
      [("#/kennel/properties/a~1b/allOf/0", "#/definitions/Pet"),
        ("#/kennel/properties/a~1b/allOf/1", "Cat")] := by
    simp only [sites_item, outer, inner, List.flatMap_cons, List.flatMap_nil, sites]
    decide
  have run : checkSchema (· == "Pet") "#/kennel" (.item kennel) =
      .error (.invalidFormat "Cat" "#/kennel/properties/a~1b/allOf/1") := by
    rw [checkSchema, sites]
    rfl
  refine ⟨kennel_distinct, run, ?_⟩
  obtain ⟨way, path, _, leads, blamed⟩ :=
    (checkSchema_reports (· == "Pet") "#/kennel" kennel_distinct).2.2.1 _ run
  generalize same : ResolveError.invalidFormat "Cat" _ = e at blamed
  cases blamed with
  | malformed =>
    obtain ⟨rfl, place⟩ := ResolveError.invalidFormat.inj same
    exact ⟨way, place.symm, leads⟩
  | unknown => cases same

end SchemaRef

end TypedClients
