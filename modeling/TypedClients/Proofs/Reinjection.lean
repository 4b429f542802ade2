import TypedClients.Proofs.DistinctKeys

namespace TypedClients

theorem Keyed.eq_of_find? {α : Type} {pairs others : List (String × α)}
    (distinct : (keys pairs).Nodup) (same : keys others = keys pairs)
    (found : ∀ p ∈ pairs, find? p.1 others = some p.2) : others = pairs := by
  refine eq_of_keys (show others.map Prod.fst = pairs.map Prod.fst from same) ?_
  intro p left q right shared
  have here : find? p.1 others = some p.2 := find?_of_mem (same ▸ distinct) left
  rw [shared, found q right] at here
  exact Prod.ext shared (Option.some.inj here).symm

theorem Keyed.eq_map_find? {α : Type} {pairs others : List (String × α)}
    (distinct : (keys pairs).Nodup) (same : keys others = keys pairs) :
    others = pairs.map fun p => (p.1, (find? p.1 others).getD p.2) := by
  have listed : keys (pairs.map fun p => (p.1, (find? p.1 others).getD p.2)) = keys pairs := by
    simp [keys, Function.comp_def]
  refine eq_of_find? (listed ▸ distinct) (same.trans listed.symm) fun q mem => ?_
  obtain ⟨p, stored, rfl⟩ := List.mem_map.mp mem
  obtain ⟨v, found⟩ := find?_of_mem_keys (same ▸ mem_keys stored)
  dsimp only
  rw [found]
  rfl

theorem flatMap_filter {α β : Type} (keep : α → Bool) (f : α → List β) (as : List α) :
    (as.filter keep).flatMap f = as.flatMap fun a => if keep a then f a else [] := by
  induction as with
  | nil => rfl
  | cons a rest ih => by_cases kept : keep a <;> simp [kept, ih]

theorem Supplements.eq_old {old now : List String} {qualifies : String → Prop}
    (h : Supplements old qualifies now) (all : ∀ p, qualifies p → p ∈ old) : now = old := by
  obtain ⟨new, rfl, _, members⟩ := h
  have none : new = [] := by
    refine List.eq_nil_iff_forall_not_mem.mpr fun p listed => ?_
    obtain ⟨qualified, fresh⟩ := (members p).mp listed
    exact fresh (all p qualified)
  rw [none, List.append_nil]

theorem Supplements.mem {old now : List String} {qualifies : String → Prop} {p : String}
    (h : Supplements old qualifies now) (qualified : qualifies p) : p ∈ now := by
  obtain ⟨new, rfl, _, members⟩ := h
  by_cases there : p ∈ old
  · exact List.mem_append_left new there
  · exact List.mem_append_right old ((members p).mpr ⟨qualified, there⟩)

theorem Supplements.nodup {old now : List String} {qualifies : String → Prop}
    (h : Supplements old qualifies now) (distinct : old.Nodup) : now.Nodup := by
  obtain ⟨new, rfl, fresh, members⟩ := h
  refine List.nodup_append.mpr ⟨distinct, fresh, fun p left q right same => ?_⟩
  exact ((members q).mp right).2 (same ▸ left)

theorem tagProperty_injective : Function.Injective tagProperty := by
  intro keys others same
  simp only [tagProperty, Referenced.item.injEq, Schema.mk.injEq, Keywords.mk.injEq] at same
  have texts : keys.map Json.text = others.map Json.text := by simpa using same
  exact List.map_injective_iff.mpr (fun _ _ => Json.text.inj) texts

namespace SchemaRef

def mappingEntries (owner : String) (r : SchemaRef) : List MappingEntry :=
  r.inlined.flatMap (Schema.mappingEntries owner)

variable {owner : String}

theorem mappingEntries_item (s : Schema) : mappingEntries owner (.item s) =
    s.mappingEntries owner ++ s.children.flatMap fun x => mappingEntries owner x.2 := by
  unfold mappingEntries
  rw [inlined_item, List.flatMap_cons, List.flatMap_assoc]

theorem mappingEntries_tagProperty (keys : List String) :
    mappingEntries owner (tagProperty keys) = [] := by
  rw [tagProperty, mappingEntries_item]
  rfl

end SchemaRef

namespace Schema

variable {s t u : Schema} {keys more : String → List String} {owner : String}

def without (s : Schema) (gone : String → Prop) [DecidablePred gone] : Schema :=
  { s with properties := s.properties.filter fun p => ¬ gone p.1 }

theorem mappingEntries_properties (s : Schema) : SchemaRef.mappingEntries owner (.item s) =
    s.mappingEntries owner ++ ((s.properties.flatMap fun p => SchemaRef.mappingEntries owner p.2) ++
      ({ s with properties := [] } : Schema).children.flatMap
        fun x => SchemaRef.mappingEntries owner x.2) := by
  have apart : s.children =
      namedSlots .property s.properties ++ ({ s with properties := [] } : Schema).children := by
    unfold children
    simp only [namedSlots, List.map_nil, List.nil_append, List.append_assoc]
    rfl
  rw [SchemaRef.mappingEntries_item, apart, List.flatMap_append, namedSlots, List.flatMap_map]

theorem mappingEntries_without {gone : String → Prop} [DecidablePred gone]
    (h : ∀ p ∈ s.properties, gone p.1 → SchemaRef.mappingEntries owner p.2 = []) :
    SchemaRef.mappingEntries owner (.item (s.without gone)) =
      SchemaRef.mappingEntries owner (.item s) := by
  rw [mappingEntries_properties, mappingEntries_properties s]
  have kept : ((s.without gone).properties.flatMap fun p => SchemaRef.mappingEntries owner p.2) =
      s.properties.flatMap fun p => SchemaRef.mappingEntries owner p.2 := by
    unfold without
    rw [flatMap_filter]
    refine List.flatMap_congr fun p listed => ?_
    by_cases lost : gone p.1
    · simp [lost, h p listed lost]
    · simp [lost]
  rw [kept]
  rfl

theorem Tagged.find?_kept (h : s.Tagged t keys) (distinct : (Keyed.keys s.properties).Nodup)
    {p : String × SchemaRef} (stored : p ∈ s.properties) (untagged : keys p.1 = []) :
    Keyed.find? p.1 t.properties = some p.2 := by
  obtain ⟨k, here⟩ := List.mem_iff_getElem?.mp stored
  have there := h.kept k p.1 p.2 here untagged
  exact Keyed.find?_of_mem (h.order.nodup distinct) (List.mem_iff_getElem?.mpr ⟨k, there⟩)

theorem Tagged.properties_eq (h : s.Tagged t keys) (distinct : (Keyed.keys s.properties).Nodup) :
    ∃ new : List String, t.properties =
      (s.properties.map fun p => (p.1, if keys p.1 = [] then p.2 else tagProperty (keys p.1))) ++
        new.map fun p => (p, tagProperty (keys p)) := by
  have t_distinct := h.order.nodup distinct
  obtain ⟨new, order, _, members⟩ := h.order
  refine ⟨new, ?_⟩
  have same : Keyed.keys t.properties = Keyed.keys ((s.properties.map fun p =>
      (p.1, if keys p.1 = [] then p.2 else tagProperty (keys p.1))) ++
        new.map fun p => (p, tagProperty (keys p))) := by
    rw [order]
    simp [Keyed.keys, Function.comp_def]
  refine Keyed.eq_of_find? (same ▸ t_distinct) same fun q listed => ?_
  rcases List.mem_append.mp listed with listed | listed
  · obtain ⟨p, stored, rfl⟩ := List.mem_map.mp listed
    dsimp only
    split
    · rename_i untagged
      exact h.find?_kept distinct stored untagged
    · rename_i tagged
      exact h.tagged p.1 tagged
  · obtain ⟨p, fresh, rfl⟩ := List.mem_map.mp listed
    exact h.tagged p ((members p).mp fresh).1

theorem Tagged.mappingEntries (h : s.Tagged t keys) (distinct : (Keyed.keys s.properties).Nodup) :
    SchemaRef.mappingEntries owner (.item t) =
      SchemaRef.mappingEntries owner (.item (s.without fun p => keys p ≠ [])) := by
  obtain ⟨new, properties⟩ := h.properties_eq distinct
  have kept : (t.properties.flatMap fun p => SchemaRef.mappingEntries owner p.2) =
      (s.without fun p => keys p ≠ []).properties.flatMap
        fun p => SchemaRef.mappingEntries owner p.2 := by
    unfold without
    rw [properties, List.flatMap_append, List.flatMap_map, List.flatMap_map, flatMap_filter]
    simp only [SchemaRef.mappingEntries_tagProperty, List.flatMap_eq_nil_iff.mpr fun _ _ => rfl,
      List.append_nil]
    refine List.flatMap_congr fun p _ => ?_
    by_cases untagged : keys p.1 = []
    · simp [untagged]
    · simp [untagged, SchemaRef.mappingEntries_tagProperty]
  rw [mappingEntries_properties, mappingEntries_properties (s.without _), kept, h.frame]
  rfl

/-- Tags written over tags leave the schema as it is exactly if they admit the same keys. -/
theorem Tagged.fixed_iff (h : s.Tagged t more) (again : t.Tagged u keys)
    (fewer : ∀ p, keys p ≠ [] → more p ≠ []) (distinct : (Keyed.keys s.properties).Nodup) :
    u = t ↔ ∀ p, keys p = [] ∨ keys p = more p := by
  constructor
  · rintro rfl p
    by_cases untagged : keys p = []
    · exact .inl untagged
    · have second := again.tagged p untagged
      rw [h.tagged p (fewer p untagged)] at second
      exact .inr (tagProperty_injective (Option.some.inj second)).symm
  · intro same
    have required : u.required = t.required :=
      again.required.eq_old fun p tagged => h.required.mem (fewer p tagged)
    have order : Keyed.keys u.properties = Keyed.keys t.properties :=
      again.order.eq_old fun p tagged => h.order.mem (fewer p tagged)
    have t_distinct := h.order.nodup distinct
    have properties : u.properties = t.properties := by
      refine Keyed.eq_of_find? t_distinct order fun p stored => ?_
      by_cases untagged : keys p.1 = []
      · exact again.find?_kept t_distinct stored untagged
      · rw [again.tagged p.1 untagged, (same p.1).resolve_left untagged,
          ← h.tagged p.1 (fewer p.1 untagged)]
        exact Keyed.find?_of_mem t_distinct stored
    rw [again.frame, properties, required]
    cases t
    rfl

end Schema

theorem Injection.Tracks.tagged_of_find? {arena : Arena} {done : List MappingEntry}
    {i : Injection} {n : String} {t : Schema} (h : Tracks arena done i)
    (found : i.arena.find? n = some (.item t)) :
    ∃ s, arena.find? n = some (.item s) ∧ s.Tagged t (arena.tagKeys done n) := by
  obtain ⟨s, stored⟩ := (h.item n).mp ⟨t, found⟩
  obtain ⟨u, again, tagged⟩ := h.tagged n s stored
  rw [found] at again
  cases again
  exact ⟨s, stored, tagged⟩

theorem Injection.Tracks.tagKeys_eq {arena : Arena} {done : List MappingEntry} {i : Injection}
    (h : Tracks arena done i) (entries : List MappingEntry) :
    i.arena.tagKeys entries = arena.tagKeys entries := by
  funext t p
  unfold Arena.tagKeys
  simp only [h.designates]

namespace Arena

variable {arena : Arena} {i : Injection} {e : MappingEntry}

def untagged (arena : Arena) (name : String) : SchemaRef → SchemaRef
  | .ref path => .ref path
  | .item s => .item (s.without fun p => arena.tagKeys arena.mappingEntries name p ≠ [])

/-- The mapping entries that injection leaves in the arena. -/
def lastingEntries (arena : Arena) : List MappingEntry :=
  arena.schemas.flatMap fun p => SchemaRef.mappingEntries p.1 (arena.untagged p.1 p.2)

theorem mappingEntries_eq (arena : Arena) :
    arena.mappingEntries = arena.schemas.flatMap fun p => SchemaRef.mappingEntries p.1 p.2 := rfl

theorem mem_of_lasting (h : e ∈ arena.lastingEntries) : e ∈ arena.mappingEntries := by
  rw [mappingEntries_eq]
  obtain ⟨⟨name, r⟩, stored, found⟩ := List.mem_flatMap.mp h
  refine List.mem_flatMap.mpr ⟨(name, r), stored, ?_⟩
  cases r with
  | ref path => exact found
  | item s =>
    dsimp only [untagged] at found
    rw [Schema.mappingEntries_properties, List.mem_append, List.mem_append] at found ⊢
    refine found.imp id (Or.imp (fun inside => ?_) id)
    obtain ⟨p, kept, listed⟩ := List.mem_flatMap.mp inside
    exact List.mem_flatMap.mpr ⟨p, List.mem_of_mem_filter kept, listed⟩

theorem tagKeys_of_lasting {t p : String} (h : arena.tagKeys arena.lastingEntries t p ≠ []) :
    arena.tagKeys arena.mappingEntries t p ≠ [] := by
  obtain ⟨e, listed, given⟩ := tagKeys_ne_nil.mp h
  exact tagKeys_ne_nil.mpr ⟨e, mem_of_lasting listed, given⟩

section

variable (distinct : arena.Distinct) (h : arena.injectDiscriminators = .ok i)
include distinct h

theorem Distinct.inject : i.arena.Distinct := by
  have tracks := injectDiscriminators_tracks h
  have names : i.arena.names.Nodup := tracks.names ▸ distinct.names
  refine ⟨names, fun n t listed => ?_⟩
  have found : i.arena.find? n = some (.item t) := Keyed.find?_of_mem names listed
  obtain ⟨s, stored, tagged⟩ := tracks.tagged_of_find? found
  exact tagged.order.nodup (distinct.properties n s (Keyed.mem_of_find? stored))

theorem mappingEntries_inject : i.arena.mappingEntries = arena.lastingEntries := by
  have tracks := injectDiscriminators_tracks h
  have schemas := Keyed.eq_map_find? distinct.names tracks.names
  rw [mappingEntries_eq, schemas, List.flatMap_map]
  refine List.flatMap_congr fun p listed => ?_
  obtain ⟨n, r⟩ := p
  show SchemaRef.mappingEntries n ((i.arena.find? n).getD r) = _
  have stored : arena.find? n = some r := Keyed.find?_of_mem distinct.names listed
  cases r with
  | ref path =>
    rw [(tracks.ref n path).mpr stored]
    rfl
  | item s =>
    obtain ⟨t, found, tagged⟩ := tracks.tagged n s stored
    rw [found]
    exact tagged.mappingEntries (distinct.properties n s listed)

theorem lastingEntries_inject : i.arena.lastingEntries = i.arena.mappingEntries := by
  have tracks := injectDiscriminators_tracks h
  have after := distinct.inject h
  rw [mappingEntries_eq]
  refine List.flatMap_congr fun p listed => ?_
  obtain ⟨n, r⟩ := p
  cases r with
  | ref path => rfl
  | item t =>
    refine Schema.mappingEntries_without fun q inside replaced => ?_
    have found : i.arena.find? n = some (.item t) := Keyed.find?_of_mem after.names listed
    obtain ⟨s, _, tagged⟩ := tracks.tagged_of_find? found
    -- The property is replaced again, so it was a tag before.
    rw [mappingEntries_inject distinct h, tracks.tagKeys_eq] at replaced
    have tag := tagged.tagged q.1 (tagKeys_of_lasting replaced)
    rw [Keyed.find?_of_mem (after.properties n t listed) inside] at tag
    rw [Option.some.inj tag]
    exact SchemaRef.mappingEntries_tagProperty _

/-- A second injection has its entries from what the first one left. -/
theorem inject_twice : ∃ j, i.arena.injectDiscriminators = .ok j ∧
    j.Tracks i.arena arena.lastingEntries := by
  have tracks := injectDiscriminators_tracks h
  have entries := mappingEntries_inject distinct h
  have targets := injectDiscriminators_total.mp ⟨i, h⟩
  obtain ⟨j, second⟩ : ∃ j, i.arena.injectDiscriminators = .ok j := by
    refine injectDiscriminators_total.mpr fun e listed => ?_
    rw [entries] at listed
    obtain ⟨t, given⟩ := targets e (mem_of_lasting listed)
    exact ⟨t, tracks.designates.mpr given⟩
  exact ⟨j, second, entries ▸ injectDiscriminators_tracks second⟩

theorem inject_twice_eq_iff {j : Injection} (again : j.Tracks i.arena arena.lastingEntries) :
    j.arena = i.arena ↔ ∀ t p, arena.tagKeys arena.lastingEntries t p = [] ∨
      arena.tagKeys arena.lastingEntries t p = arena.tagKeys arena.mappingEntries t p := by
  have tracks := injectDiscriminators_tracks h
  have fixed : ∀ n s t u, arena.find? n = some (.item s) →
      s.Tagged t (arena.tagKeys arena.mappingEntries n) →
      t.Tagged u (arena.tagKeys arena.lastingEntries n) →
      (u = t ↔ ∀ p, arena.tagKeys arena.lastingEntries n p = [] ∨
        arena.tagKeys arena.lastingEntries n p = arena.tagKeys arena.mappingEntries n p) :=
    fun n s t u stored first second => first.fixed_iff second (fun _ => tagKeys_of_lasting)
      (distinct.properties n s (Keyed.mem_of_find? stored))
  constructor
  · intro same n p
    by_cases target : ∃ s, arena.find? n = some (.item s)
    · obtain ⟨s, stored⟩ := target
      obtain ⟨t, found, first⟩ := tracks.tagged n s stored
      obtain ⟨u, found_again, second⟩ := again.tagged n t found
      rw [same, found] at found_again
      cases found_again
      rw [tracks.tagKeys_eq] at second
      exact (fixed n s t t stored first second).mp rfl p
    -- Only schemas given in place are targets, so nothing else has keys to lose.
    · exact .inl (Injection.no_tags_of_not_item (fun s stored => target ⟨s, stored⟩) p)
  · intro same
    have names : Keyed.keys j.arena.schemas = Keyed.keys i.arena.schemas := again.names
    have schemas : j.arena.schemas = i.arena.schemas := by
      refine Keyed.eq_of_find? (distinct.inject h).names names fun p listed => ?_
      obtain ⟨n, r⟩ := p
      have found : i.arena.find? n = some r :=
        Keyed.find?_of_mem (distinct.inject h).names listed
      cases r with
      | ref path => exact (again.ref n path).mpr found
      | item t =>
        obtain ⟨s, stored, first⟩ := tracks.tagged_of_find? found
        obtain ⟨u, found_again, second⟩ := again.tagged n t found
        rw [tracks.tagKeys_eq] at second
        rw [(fixed n s t u stored first second).mpr (same n)] at found_again
        exact found_again
    cases j
    cases i
    exact congrArg Arena.mk schemas

/-- A second injection leaves the arena as it is exactly if no tag has lost a part of its keys with
the properties that the first injection replaced. It never fails, and a third one changes
nothing. Resolution injects into such an arena whenever the document was read. -/
theorem injectDiscriminators_again : ∃ j, i.arena.injectDiscriminators = .ok j ∧
    (j.arena = i.arena ↔ ∀ t p, arena.tagKeys arena.lastingEntries t p = [] ∨
      arena.tagKeys arena.lastingEntries t p = arena.tagKeys arena.mappingEntries t p) ∧
    (∃ k, j.arena.injectDiscriminators = .ok k ∧ k.arena = j.arena) ∧
    ∀ source : Document, source.Read → ∀ start, source.resolveSchemas = .ok start →
      start.Distinct := by
  obtain ⟨j, second, again⟩ := inject_twice distinct h
  obtain ⟨k, third, once_more⟩ := inject_twice (distinct.inject h) second
  refine ⟨j, second, inject_twice_eq_iff distinct h again, ⟨k, third, ?_⟩,
    fun _ read _ run => read.arena run⟩
  -- What a second injection loses, it loses from properties of the arena it starts from.
  refine (inject_twice_eq_iff (distinct.inject h) second once_more).mpr fun t p => .inr ?_
  rw [lastingEntries_inject distinct h]

end

def tom : Schema := { discriminator := some ⟨"kind", [("tom", "Cat")]⟩ }

/-- The property that the outer discriminator tags holds a discriminator of its own. -/
def cat : Schema where
  discriminator := some ⟨"kind", [("cat", "Cat")]⟩
  properties := [("kind", .item tom)]

def cats : Arena := ⟨[("Cat", .item cat)]⟩

def catEntries : List MappingEntry := [⟨"Cat", "kind", "cat", "Cat"⟩, ⟨"Cat", "kind", "tom", "Cat"⟩]

theorem cats_mappingEntries : cats.mappingEntries = catEntries := by
  rw [mappingEntries_eq]
  show SchemaRef.mappingEntries "Cat" (.item cat) ++ [] = catEntries
  rw [Schema.mappingEntries_properties]
  show _ ++ ((SchemaRef.mappingEntries "Cat" (.item tom) ++ []) ++ []) ++ [] = catEntries
  rw [SchemaRef.mappingEntries_item]
  rfl

theorem cats_designates (h : e ∈ catEntries) : cats.Designates e "Cat" := by
  simp only [catEntries, List.mem_cons, List.not_mem_nil, or_false] at h
  rcases h with rfl | rfl <;> exact ⟨"Cat", .inr ⟨by decide, rfl⟩, .item rfl⟩

theorem cats_tagKeys {entries : List MappingEntry} (h : ∀ e ∈ entries, e ∈ catEntries) :
    cats.tagKeys entries "Cat" "kind" = (entries.map MappingEntry.key).eraseDups := by
  have all : ∀ e ∈ entries, decide (e.property = "kind" ∧ cats.Designates e "Cat") = true := by
    intro e listed
    refine decide_eq_true ⟨?_, cats_designates (h e listed)⟩
    exact (by decide : ∀ e ∈ catEntries, e.property = "kind") e (h e listed)
  rw [tagKeys, List.filter_eq_self.mpr all]

theorem injectDiscriminators_again_cats : cats.Distinct ∧
    ∃ i, cats.injectDiscriminators = .ok i ∧
      ∃ j, i.arena.injectDiscriminators = .ok j ∧ j.arena ≠ i.arena := by
  have distinct : cats.Distinct := by
    refine ⟨by decide, fun n s stored => ?_⟩
    cases List.mem_singleton.mp stored
    decide
  have keys : cats.tagKeys cats.mappingEntries "Cat" "kind" = ["cat", "tom"] := by
    rw [cats_mappingEntries, cats_tagKeys fun _ => id]
    decide
  have lasting : cats.lastingEntries = [⟨"Cat", "kind", "cat", "Cat"⟩] := by
    have untagged : cats.untagged "Cat" (.item cat) = .item { cat with properties := [] } := by
      simp only [untagged, Schema.without, cat, List.filter_cons, List.filter_nil, keys]
      rfl
    unfold lastingEntries
    show SchemaRef.mappingEntries "Cat" (cats.untagged "Cat" (.item cat)) ++ [] = _
    rw [untagged, SchemaRef.mappingEntries_item]
    rfl
  obtain ⟨i, run⟩ : ∃ i, cats.injectDiscriminators = .ok i := by
    refine injectDiscriminators_total.mpr fun e listed => ?_
    rw [cats_mappingEntries] at listed
    exact ⟨"Cat", cats_designates listed⟩
  obtain ⟨j, second, same, _⟩ := injectDiscriminators_again distinct run
  refine ⟨distinct, i, run, j, second, fun kept => ?_⟩
  have broken := same.mp kept "Cat" "kind"
  rw [keys, lasting, cats_tagKeys (by decide)] at broken
  revert broken
  decide

end Arena

end TypedClients
