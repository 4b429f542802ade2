import Mathlib.Data.Set.Card
import TypedClients.Proofs.Alias
import TypedClients.Proofs.Gathering
import TypedClients.Proofs.Reachable
import TypedClients.Resolve.Discriminator

namespace TypedClients

theorem TargetNames.unique {target n m : String} (hn : TargetNames target n)
    (hm : TargetNames target m) : n = m := by
  have first := targetReference?_eq_some.mpr hn
  have second := targetReference?_eq_some.mpr hm
  rw [first] at second
  exact Option.some.inj second

namespace Arena

/-- The target of an entry is a reference to the schema or its bare name, or either of an alias. -/
def Designates (arena : Arena) (e : MappingEntry) (t : String) : Prop :=
  ∃ n, TargetNames e.target n ∧ arena.StandsFor n t

variable {arena : Arena} {e : MappingEntry} {t : String}

theorem Designates.unique {u : String} (ht : arena.Designates e t) (hu : arena.Designates e u) :
    t = u := by
  obtain ⟨n, named, chain⟩ := ht
  obtain ⟨m, other_named, other⟩ := hu
  have same := named.unique other_named
  subst same
  exact chain.unique other

theorem Designates.item (h : arena.Designates e t) : ∃ s, arena.find? t = some (.item s) := by
  obtain ⟨_, _, _, stored⟩ := h
  exact stored

theorem targetName?_known {target n : String} :
    (arena.targetName? target).filter arena.contains = some n ↔
      TargetNames target n ∧ arena.contains n = true := by
  rw [Option.filter_eq_some_iff]
  unfold targetName? TargetNames
  cases named : Pointer.schemaName? target with
  | some m =>
    have slash := Pointer.slash_mem_of_schemaName? named
    simp [slash]
  | none =>
    by_cases slash : '/' ∈ target.toList
    · simp [Text.hasChar, slash]
    · simp only [Text.hasChar, List.contains_eq_mem, slash, decide_false, Bool.not_false,
        Bool.true_and, Option.ite_none_right_eq_some, Option.some.injEq, reduceCtorEq, false_or,
        not_false_eq_true, true_and]
      constructor
      · intro given
        obtain ⟨⟨_, same⟩, known⟩ := given
        exact ⟨same, known⟩
      · intro given
        obtain ⟨rfl, known⟩ := given
        exact ⟨⟨known, rfl⟩, known⟩

theorem mappingTarget_eq_ok {s : Schema} :
    arena.mappingTarget e = .ok (t, s) ↔
      arena.Designates e t ∧ arena.find? t = some (.item s) := by
  unfold mappingTarget
  constructor
  · intro h
    split at h
    · rename_i n found
      have named := (targetName?_known.mp found).1
      have chain := concrete_eq_ok.mp h
      exact ⟨⟨n, named, chain.1⟩, chain.2⟩
    · cases h
  · intro given
    obtain ⟨⟨n, named, chain⟩, stored⟩ := given
    have known : arena.contains n = true := contains_iff_mem_names.mpr chain.mem_names
    rw [targetName?_known.mpr ⟨named, known⟩]
    exact concrete_eq_ok.mpr ⟨chain, stored⟩

theorem designates_iff :
    (arena.mappingTarget e).toOption.map Prod.fst = some t ↔ arena.Designates e t := by
  constructor
  · intro h
    cases found : arena.mappingTarget e with
    | error => rw [found] at h; cases h
    | ok p =>
      obtain ⟨u, s⟩ := p
      rw [found] at h
      cases h
      exact (mappingTarget_eq_ok.mp found).1
  · intro h
    obtain ⟨s, stored⟩ := h.item
    rw [mappingTarget_eq_ok.mpr ⟨h, stored⟩]
    rfl

instance : Decidable (arena.Designates e t) := decidable_of_iff _ designates_iff

/-- The keys of the entries that give a property to a schema, each once, in first-seen order. -/
def tagKeys (arena : Arena) (entries : List MappingEntry) (t property : String) : List String :=
  ((entries.filter fun e => e.property = property ∧ arena.Designates e t).map
    MappingEntry.key).eraseDups

end Arena

section addNew

variable {α : Type} [DecidableEq α]

def addNew (known : List α) (a : α) : List α := if a ∈ known then known else known ++ [a]

variable {known : List α} {a b : α}

theorem mem_addNew : b ∈ addNew known a ↔ b ∈ known ∨ b = a := by
  unfold addNew
  split
  · rename_i listed
    constructor
    · exact .inl
    · intro given
      rcases given with earlier | rfl
      · exact earlier
      · exact listed
  · simp

theorem addNew_ne_nil (known : List α) (a : α) : addNew known a ≠ [] :=
  List.ne_nil_of_mem (mem_addNew.mpr (.inr rfl))

theorem nodup_addNew (h : known.Nodup) : (addNew known a).Nodup := by
  unfold addNew
  split
  · exact h
  · rename_i fresh
    rw [List.nodup_append]
    refine ⟨h, List.nodup_singleton a, ?_⟩
    intro c hc d hd same
    subst same
    rw [List.mem_singleton] at hd
    subst hd
    exact fresh hc

theorem eraseDups_snoc (known : List α) (a : α) :
    (known ++ [a]).eraseDups = addNew known.eraseDups a := by
  rw [eraseDups_concat, addNew]
  simp only [List.mem_eraseDups]

end addNew

namespace Arena

variable {arena : Arena} {e : MappingEntry} {t p : String} {entries : List MappingEntry}

theorem tagKeys_ne_nil :
    arena.tagKeys entries t p ≠ [] ↔ ∃ e ∈ entries, e.property = p ∧ arena.Designates e t := by
  constructor
  · intro h
    obtain ⟨key, mem⟩ := List.exists_mem_of_ne_nil _ h
    obtain ⟨e, he, _⟩ := List.mem_map.mp (List.mem_eraseDups.mp mem)
    obtain ⟨listed, given⟩ := List.mem_filter.mp he
    exact ⟨e, listed, of_decide_eq_true given⟩
  · intro given
    obtain ⟨e, listed, given⟩ := given
    have kept : e ∈ entries.filter fun e => e.property = p ∧ arena.Designates e t :=
      List.mem_filter.mpr ⟨listed, decide_eq_true given⟩
    exact List.ne_nil_of_mem (List.mem_eraseDups.mpr (List.mem_map_of_mem kept))

theorem tagKeys_snoc_self (h : arena.Designates e t) :
    arena.tagKeys (entries ++ [e]) t e.property =
      addNew (arena.tagKeys entries t e.property) e.key := by
  unfold tagKeys
  rw [← eraseDups_snoc, List.filter_append, List.map_append]
  simp [h]

theorem tagKeys_snoc_of_not (h : ¬ (e.property = p ∧ arena.Designates e t)) :
    arena.tagKeys (entries ++ [e]) t p = arena.tagKeys entries t p := by
  unfold tagKeys
  rw [List.filter_append]
  simp [h]

end Arena

def tagProperty (keys : List String) : SchemaRef :=
  .item { type := some (.single .string), enumValues := keys.map .text }

/-- A list with new members at its end: those that qualify and were not there, each once. -/
def Supplements (old : List String) (qualifies : String → Prop) (now : List String) : Prop :=
  ∃ new, now = old ++ new ∧ new.Nodup ∧ ∀ p, p ∈ new ↔ qualifies p ∧ p ∉ old

theorem Supplements.refl {old : List String} {qualifies : String → Prop}
    (h : ∀ p, ¬ qualifies p) : Supplements old qualifies old := by
  refine ⟨[], (List.append_nil old).symm, .nil, fun p => ?_⟩
  simp [h p]

theorem Supplements.step {old now : List String} {before after : String → Prop} {p : String}
    (h : Supplements old before now) (qualifies : ∀ q, after q ↔ before q ∨ q = p) :
    Supplements old after (addNew now p) := by
  obtain ⟨new, rfl, distinct, members⟩ := h
  by_cases there : p ∈ old
  · have kept : addNew (old ++ new) p = old ++ new := if_pos (List.mem_append_left new there)
    refine ⟨new, kept, distinct, fun q => ?_⟩
    rw [members, qualifies]
    constructor
    · intro given
      obtain ⟨earlier, absent⟩ := given
      exact ⟨.inl earlier, absent⟩
    · intro given
      obtain ⟨earlier | rfl, absent⟩ := given
      · exact ⟨earlier, absent⟩
      · exact absurd there absent
  · have grown : addNew (old ++ new) p = old ++ addNew new p := by
      unfold addNew
      by_cases added : p ∈ new <;> simp [there, added]
    refine ⟨addNew new p, grown, nodup_addNew distinct, fun q => ?_⟩
    rw [mem_addNew, members, qualifies]
    constructor
    · intro given
      rcases given with ⟨earlier, absent⟩ | rfl
      · exact ⟨.inl earlier, absent⟩
      · exact ⟨.inr rfl, there⟩
    · intro given
      obtain ⟨earlier | rfl, absent⟩ := given
      · exact .inl ⟨earlier, absent⟩
      · exact .inr rfl

namespace Schema

/-- A schema with tag properties: every name with keys is a required property that admits the keys
only, and nothing else differs. -/
structure Tagged (s t : Schema) (keys : String → List String) : Prop where
  frame : t = { s with properties := t.properties, required := t.required }
  tagged : ∀ p, keys p ≠ [] → Keyed.find? p t.properties = some (tagProperty (keys p))
  kept : ∀ (k : Nat) p c, s.properties[k]? = some (p, c) → keys p = [] →
    t.properties[k]? = some (p, c)
  order : Supplements (Keyed.keys s.properties) (fun p => keys p ≠ []) (Keyed.keys t.properties)
  required : Supplements s.required (fun p => keys p ≠ []) t.required

theorem Tagged.refl {s : Schema} {keys : String → List String} (h : ∀ p, keys p = []) :
    s.Tagged s keys where
  frame := by cases s; rfl
  tagged p some_key := absurd (h p) some_key
  kept _ _ _ stored _ := stored
  order := .refl fun p some_key => some_key (h p)
  required := .refl fun p some_key => some_key (h p)

theorem addTagValue_eq (key : String) (keys : List String) :
    Referenced.item
        (addTagValue key { type := some (.single .string), enumValues := keys.map .text }) =
      tagProperty (addNew keys key) := by
  have known : (keys.map Json.text).any (Json.same (.text key)) = true ↔ key ∈ keys := by
    rw [List.any_eq_true]
    constructor
    · intro given
      obtain ⟨value, listed, same⟩ := given
      obtain ⟨k, hk, rfl⟩ := List.mem_map.mp listed
      rw [Json.same, beq_iff_eq] at same
      exact same ▸ hk
    · intro listed
      exact ⟨.text key, List.mem_map_of_mem listed, by rw [Json.same, beq_iff_eq]⟩
  unfold addTagValue addNew tagProperty
  by_cases listed : key ∈ keys
  · simp [known.mpr listed, listed]
  · have fresh : (keys.map Json.text).any (Json.same (.text key)) = false :=
      Bool.eq_false_iff.mpr fun found => listed (known.mp found)
    simp [fresh, listed]

theorem injectTag_eq {t : Schema} {p key : String} {keys : List String}
    (h : keys ≠ [] → Keyed.find? p t.properties = some (tagProperty keys)) :
    t.injectTag p key (decide (keys = [])) =
      { t with
        properties := Keyed.insert p (tagProperty (addNew keys key)) t.properties
        required := addNew t.required p } := by
  unfold injectTag
  by_cases first : keys = []
  · subst first
    simp [tagSchema, tagProperty, addNew]
  · have found := h first
    rw [tagProperty] at found
    have widened := addTagValue_eq key keys
    simp [first, found, widened, addNew]

theorem Tagged.inject {s t : Schema} {keys after : String → List String} {p key : String}
    (h : s.Tagged t keys) (widened : after p = addNew (keys p) key)
    (others : ∀ q, q ≠ p → after q = keys q) :
    s.Tagged (t.injectTag p key (decide (keys p = []))) after := by
  have qualifies : ∀ q, after q ≠ [] ↔ keys q ≠ [] ∨ q = p := by
    intro q
    by_cases same : q = p
    · subst same
      simp [widened, addNew_ne_nil]
    · simp [others q same, same]
  rw [injectTag_eq (h.tagged p)]
  constructor
  · exact congrArg (fun u : Schema => { u with
      properties := Keyed.insert p (tagProperty (addNew (keys p) key)) t.properties
      required := addNew t.required p }) h.frame
  · intro q some_key
    by_cases same : q = p
    · subst same
      rw [widened]
      exact Keyed.find?_insert_self _ _ _
    · rw [others q same] at some_key ⊢
      rw [Keyed.find?_insert_of_ne _ _ same]
      exact h.tagged q some_key
  · intro k q c stored no_key
    have different : q ≠ p := by
      intro same
      subst same
      exact addNew_ne_nil _ _ (widened.symm.trans no_key)
    rw [others q different] at no_key
    exact Keyed.getElem?_insert_of_ne _ (h.kept k q c stored no_key) different
  · rw [Keyed.keys_insert]
    exact h.order.step qualifies
  · exact h.required.step qualifies

end Schema

namespace Injection

structure Tracks (arena : Arena) (done : List MappingEntry) (i : Injection) : Prop where
  names : i.arena.names = arena.names
  untouched : ∀ n, (∀ p, arena.tagKeys done n p = []) → i.arena.find? n = arena.find? n
  tagged : ∀ n s, arena.find? n = some (.item s) →
    ∃ t, i.arena.find? n = some (.item t) ∧ s.Tagged t (arena.tagKeys done n)
  distinct : i.written.Nodup
  written : ∀ t p, (t, p) ∈ i.written ↔ arena.tagKeys done t p ≠ []

variable {arena : Arena} {done : List MappingEntry} {i j : Injection} {e : MappingEntry}

theorem tracks_start (arena : Arena) : Tracks arena [] ⟨arena, []⟩ where
  names := rfl
  untouched _ _ := rfl
  tagged _ s stored := ⟨s, stored, .refl fun _ => rfl⟩
  distinct := .nil
  written t p := by
    constructor
    · intro h
      cases h
    · intro h
      exact absurd rfl h

theorem no_tags_of_not_item {n : String} (h : ∀ s, arena.find? n ≠ some (.item s)) (p : String) :
    arena.tagKeys done n p = [] := by
  by_contra some_key
  obtain ⟨_, _, _, given⟩ := Arena.tagKeys_ne_nil.mp some_key
  obtain ⟨s, stored⟩ := given.item
  exact h s stored

theorem Tracks.ref (h : Tracks arena done i) (n path : String) :
    i.arena.find? n = some (.ref path) ↔ arena.find? n = some (.ref path) := by
  cases stored : arena.find? n with
  | none =>
    have same := h.untouched n (no_tags_of_not_item (by simp [stored]))
    rw [same, stored]
  | some r =>
    cases r with
    | ref other =>
      have same := h.untouched n (no_tags_of_not_item (by simp [stored]))
      rw [same, stored]
    | item s =>
      obtain ⟨t, found, _⟩ := h.tagged n s stored
      simp [found]

theorem Tracks.item (h : Tracks arena done i) (n : String) :
    (∃ t, i.arena.find? n = some (.item t)) ↔ ∃ s, arena.find? n = some (.item s) := by
  constructor
  · intro given
    obtain ⟨t, found⟩ := given
    by_contra absent
    have same := h.untouched n (no_tags_of_not_item fun s stored => absent ⟨s, stored⟩)
    exact absent ⟨t, same.symm.trans found⟩
  · intro given
    obtain ⟨s, stored⟩ := given
    obtain ⟨t, found, _⟩ := h.tagged n s stored
    exact ⟨t, found⟩

/-- Lookups in the arena that is being written end where they would have ended before. -/
theorem Tracks.designates (h : Tracks arena done i) {t : String} :
    i.arena.Designates e t ↔ arena.Designates e t := by
  have chains : ∀ n, i.arena.StandsFor n t ↔ arena.StandsFor n t :=
    fun n => Arena.standsFor_congr h.ref h.item
  unfold Arena.Designates
  simp only [chains]

theorem add_eq_ok (h : i.add e = .ok j) : ∃ target t, i.arena.Designates e target ∧
    i.arena.find? target = some (.item t) ∧
    j.arena.schemas = Keyed.insert target
      (.item (t.injectTag e.property e.key (!i.written.contains (target, e.property))))
      i.arena.schemas ∧
    j.written = addNew i.written (target, e.property) := by
  unfold add at h
  cases found : i.arena.mappingTarget e with
  | error => rw [found] at h; cases h
  | ok p =>
    obtain ⟨target, t⟩ := p
    rw [found] at h
    obtain ⟨given, stored⟩ := Arena.mappingTarget_eq_ok.mp found
    cases h
    refine ⟨target, t, given, stored, rfl, ?_⟩
    by_cases known : (target, e.property) ∈ i.written <;> simp [addNew, known]

theorem Tracks.add (h : Tracks arena done i) (step : i.add e = .ok j) :
    Tracks arena (done ++ [e]) j := by
  obtain ⟨target, t, given, found, schemas, written⟩ := add_eq_ok step
  have given : arena.Designates e target := h.designates.mp given
  obtain ⟨s, stored⟩ := given.item
  have first : (!i.written.contains (target, e.property)) =
      decide (arena.tagKeys done target e.property = []) := by
    have recorded := h.written target e.property
    by_cases known : (target, e.property) ∈ i.written <;> simp_all
  have widened : arena.tagKeys (done ++ [e]) target e.property =
      addNew (arena.tagKeys done target e.property) e.key := Arena.tagKeys_snoc_self given
  have others : ∀ n p, ¬ (n = target ∧ p = e.property) →
      arena.tagKeys (done ++ [e]) n p = arena.tagKeys done n p := by
    intro n p different
    apply Arena.tagKeys_snoc_of_not
    intro given
    obtain ⟨rfl, also⟩ := given
    exact different ⟨also.unique given, rfl⟩
  have elsewhere : ∀ n, n ≠ target → j.arena.find? n = i.arena.find? n := by
    intro n different
    unfold Arena.find?
    rw [schemas, Keyed.find?_insert_of_ne _ _ different]
  constructor
  · have known : target ∈ i.arena.names := Keyed.mem_keys_of_find? found
    unfold Arena.names at known ⊢
    rw [schemas, Keyed.keys_insert, if_pos known]
    exact h.names
  · intro n untagged
    have different : n ≠ target := by
      intro same
      subst same
      exact addNew_ne_nil _ _ (widened.symm.trans (untagged e.property))
    rw [elsewhere n different]
    apply h.untouched
    intro p
    rw [← others n p fun both => different both.1]
    exact untagged p
  · intro n u original
    by_cases same : n = target
    · subst same
      obtain ⟨_, again, so_far⟩ := h.tagged n u original
      rw [found] at again
      cases again
      refine ⟨_, ?_, so_far.inject widened fun p different => others n p fun both =>
        different both.2⟩
      unfold Arena.find?
      rw [schemas, Keyed.find?_insert_self, first]
    · have unchanged : arena.tagKeys (done ++ [e]) n = arena.tagKeys done n := by
        funext p
        exact others n p fun both => same both.1
      rw [elsewhere n same, unchanged]
      exact h.tagged n u original
  · rw [written]
    exact nodup_addNew h.distinct
  · intro n p
    rw [written, mem_addNew, h.written, Prod.mk.injEq]
    by_cases same : n = target ∧ p = e.property
    · obtain ⟨rfl, rfl⟩ := same
      simp [widened, addNew_ne_nil]
    · rw [others n p same]
      simp [same]

theorem addAll_nil : i.addAll [] = .ok i := rfl

theorem addAll_cons (rest : List MappingEntry) :
    i.addAll (e :: rest) = match i.add e with
      | .ok next => next.addAll rest
      | .error fault => .error (fault, i.arena) := rfl

theorem Tracks.addAll {entries : List MappingEntry} (h : Tracks arena done i)
    (run : i.addAll entries = .ok j) : Tracks arena (done ++ entries) j := by
  induction entries generalizing i done with
  | nil =>
    rw [addAll_nil] at run
    cases run
    rw [List.append_nil]
    exact h
  | cons e rest ih =>
    rw [addAll_cons] at run
    cases step : i.add e with
    | error => rw [step] at run; cases run
    | ok next =>
      rw [step] at run
      rw [List.append_cons done e rest]
      exact ih (h.add step) run

end Injection

namespace Arena

variable {arena : Arena} {i : Injection} {e : MappingEntry}

theorem injectDiscriminators_tracks (h : arena.injectDiscriminators = .ok i) :
    i.Tracks arena arena.mappingEntries :=
  (Injection.tracks_start arena).addAll h

/-- Injection changes the targets of mapping entries alone: each gains, for every property that
entries give to it, a required property that admits the keys of those entries. -/
theorem injectDiscriminators_tags (h : arena.injectDiscriminators = .ok i) :
    i.arena.names = arena.names ∧
      (∀ n path, arena.find? n = some (.ref path) → i.arena.find? n = some (.ref path)) ∧
      (∀ n, (∀ e ∈ arena.mappingEntries, ¬ arena.Designates e n) →
        i.arena.find? n = arena.find? n) ∧
      (∀ n s, arena.find? n = some (.item s) → ∃ t, i.arena.find? n = some (.item t) ∧
        s.Tagged t (arena.tagKeys arena.mappingEntries n)) ∧
      i.written.length = {pair : String × String | ∃ e ∈ arena.mappingEntries,
        e.property = pair.2 ∧ arena.Designates e pair.1}.ncard := by
  have tracked := injectDiscriminators_tracks h
  refine ⟨tracked.names, fun n path => (tracked.ref n path).mpr, ?_, tracked.tagged, ?_⟩
  · intro n no_entry
    apply tracked.untouched
    intro p
    by_contra some_key
    obtain ⟨e, listed, _, given⟩ := tagKeys_ne_nil.mp some_key
    exact no_entry e listed given
  · have pairs : {pair : String × String | ∃ e ∈ arena.mappingEntries,
        e.property = pair.2 ∧ arena.Designates e pair.1} = ↑i.written.toFinset := by
      ext ⟨t, p⟩
      rw [Set.mem_ofPred_eq, List.coe_toFinset, Set.mem_ofPred_eq, tracked.written]
      exact tagKeys_ne_nil.symm
    rw [pairs, Set.ncard_coe_finset, List.toFinset_card_of_nodup tracked.distinct]

def petKinds : Discriminator :=
  ⟨"kind", [("cat", "Cat"), ("tom", "#/components/schemas/Tom")]⟩

def pets (cat : Schema) : Arena :=
  ⟨[("Pet", .item { discriminator := some petKinds }), ("Tom", .ref "#/components/schemas/Cat"),
    ("Cat", .item cat)]⟩

def petEntries : List MappingEntry :=
  [⟨"Pet", "kind", "cat", "Cat"⟩, ⟨"Pet", "kind", "tom", "#/components/schemas/Tom"⟩]

theorem pets_designates (cat : Schema) (h : e ∈ petEntries) : (pets cat).Designates e "Cat" := by
  have stored : (pets cat).StandsFor "Cat" "Cat" := .item rfl
  have step : (pets cat).AliasOf "Tom" "Cat" := ⟨"#/components/schemas/Cat", rfl, by decide⟩
  simp only [petEntries, List.mem_cons, List.not_mem_nil, or_false] at h
  rcases h with rfl | rfl
  · exact ⟨"Cat", .inr ⟨by decide, rfl⟩, stored⟩
  · exact ⟨"Tom", .inl (by decide), .alias step stored⟩

theorem pets_add (cat : Schema) (written : List (String × String)) (h : e ∈ petEntries) :
    ∃ tagged more, Injection.add ⟨pets cat, written⟩ e = .ok ⟨pets tagged, more⟩ := by
  have found := mappingTarget_eq_ok.mpr ⟨pets_designates cat h, rfl⟩
  unfold Injection.add
  rw [found]
  exact ⟨_, _, rfl⟩

theorem injectDiscriminators_tags_pets :
    ∃ i cat, (pets {}).injectDiscriminators = .ok i ∧ i.arena.find? "Cat" = some (.item cat) ∧
      Keyed.find? "kind" cat.properties = some (tagProperty ["cat", "tom"]) := by
  have entries : (pets {}).mappingEntries = petEntries := by
    unfold mappingEntries pets
    simp only [List.flatMap_cons, List.flatMap_nil, SchemaRef.inlined_item, SchemaRef.inlined]
    rfl
  obtain ⟨i, run⟩ : ∃ i, (pets {}).injectDiscriminators = .ok i := by
    obtain ⟨cat, written, first⟩ := pets_add {} [] (e := petEntries[0]) (by decide)
    obtain ⟨again, more, second⟩ := pets_add cat written (e := petEntries[1]) (by decide)
    refine ⟨⟨pets again, more⟩, ?_⟩
    unfold injectDiscriminators
    rw [entries]
    show Injection.addAll _ [petEntries[0], petEntries[1]] = _
    simp only [Injection.addAll_cons, first, second]
    rfl
  have keys : (pets {}).tagKeys petEntries "Cat" "kind" = ["cat", "tom"] := by
    have first := pets_designates {} (e := petEntries[0]) (by decide)
    have second := pets_designates {} (e := petEntries[1]) (by decide)
    unfold tagKeys
    show (List.map _ (List.filter _ [petEntries[0], petEntries[1]])).eraseDups = _
    rw [List.filter_cons_of_pos (by simpa using ⟨rfl, first⟩),
      List.filter_cons_of_pos (by simpa using ⟨rfl, second⟩)]
    decide
  obtain ⟨cat, stored, tagged⟩ := (injectDiscriminators_tags run).2.2.2.1 "Cat" {} rfl
  have kind := tagged.tagged "kind"
  rw [entries, keys] at kind
  exact ⟨i, cat, run, stored, kind (List.cons_ne_nil _ _)⟩

end Arena

end TypedClients
