import TypedClients.Proofs.Dereference
import TypedClients.Proofs.References

namespace TypedClients

def Schema.Flat (s : Schema) : Prop := ∀ c, s.Holds c → ∃ path, c = .ref path

namespace Schema.Flat

variable {s : Schema} (flat : s.Flat)
include flat

theorem mentions_iff {path : String} : SchemaRef.Mentions (.item s) path ↔ s.Holds (.ref path) := by
  constructor
  · intro h
    cases h with
    | inside held h =>
      obtain ⟨_, rfl⟩ := flat _ held
      cases h
      exact held
  · exact fun held => .inside held (.here path)

theorem nests_iff {t : Schema} : SchemaRef.Nests (.item s) t ↔ t = s := by
  constructor
  · intro h
    cases h with
    | self => rfl
    | inside held h =>
      obtain ⟨_, rfl⟩ := flat _ held
      cases h
  · intro same
    exact same ▸ .self _

end Schema.Flat

namespace SchemaRef

def Unmapped (r : SchemaRef) : Prop :=
  ∀ s d, r.Nests s → s.discriminator = some d → d.mapping = []

variable {r : SchemaRef}

theorem nests_of_normalRef {t : Schema} (h : (normalRef r).Nests t) :
    ∃ s, r.Nests s ∧ t.toKeywords = s.toKeywords := by
  induction r using SchemaRef.induction with
  | ref path =>
    rw [normalRef] at h
    cases h
  | item s ih =>
    rw [normalRef] at h
    cases h with
    | self =>
      refine ⟨s, .self s, ?_⟩
      cases s
      rw [normalSchema]
    | inside held h =>
      obtain ⟨c, stands, rfl⟩ := Schema.holds_of_normal held
      obtain ⟨original, nested, same⟩ := ih c stands h
      exact ⟨original, .inside stands nested, same⟩

theorem Unmapped.normal (h : r.Unmapped) : (normalRef r).Unmapped := by
  intro t d nested given
  obtain ⟨s, original, same⟩ := nests_of_normalRef nested
  have given : s.discriminator = some d := (congrArg Keywords.discriminator same).symm.trans given
  exact h s d original given

theorem Unmapped.entries (h : r.Unmapped) (owner : String) :
    r.inlined.flatMap (Schema.mappingEntries owner) = [] := by
  rw [List.flatMap_eq_nil_iff]
  intro s listed
  unfold Schema.mappingEntries
  split
  · rename_i d given
    rw [h s d (mem_inlined.mp listed) given]
    rfl
  · rfl

end SchemaRef

def holder (key path : String) : Schema := { properties := [(key, .ref path)] }

section

variable {key path : String}

theorem holder_holds {c : SchemaRef} : (holder key path).Holds c ↔ c = .ref path := by
  have children : (holder key path).children = [(.property key, .ref path)] := rfl
  simp [Schema.holds_iff_child, children]

theorem holder_flat : (holder key path).Flat := fun _ held => ⟨_, holder_holds.mp held⟩

theorem empty_holds {c : SchemaRef} : ¬ Schema.Holds {} c := by
  have children : Schema.children {} = [] := rfl
  simp [Schema.holds_iff_child, children]

theorem empty_flat : Schema.Flat {} := fun _ held => absurd held empty_holds

end

namespace Document

open Outcome

def Knows (doc : Document) (s : SchemaRef) : Prop :=
  ∀ path, s.Mentions path → ∃ n, Pointer.schemaName? path = some n ∧ doc.declares n = true

variable {doc : Document}

theorem checkSchema_iff {location : String} {source s : SchemaRef} :
    checkSchema doc.declares location source = .ok s ↔ s = normalRef source ∧ doc.Knows source := by
  rw [checkSchema_eq_ok]
  refine and_congr_right fun _ => ?_
  simp only [referenceFault?_eq_none]
  constructor
  · intro clean path mentioned
    obtain ⟨place, site⟩ := SchemaRef.mem_sites.mpr mentioned
    exact clean _ site
  · intro known site listed
    exact known site.2 (SchemaRef.mem_sites.mp ⟨site.1, listed⟩)

theorem resolveSchemas_iff {arena : Arena} :
    doc.resolveSchemas = .ok arena ↔
      arena.schemas = Keyed.mapValues normalRef doc.declaredSchemas ∧
        ∀ n s, (n, s) ∈ doc.declaredSchemas → doc.Knows s := by
  have entry : ∀ (p q : String × SchemaRef), (do
      let s ← checkSchema doc.declares (Pointer.ofSchema p.1) p.2
      return (p.1, s)) = Except.ok q ↔ q = (p.1, normalRef p.2) ∧ doc.Knows p.2 := by
    intro p q
    simp only [bind_eq_ok, checkSchema_iff, pure_eq_ok]
    constructor
    · intro given
      obtain ⟨_, ⟨rfl, known⟩, same⟩ := given
      exact ⟨same, known⟩
    · intro given
      exact ⟨_, ⟨rfl, given.2⟩, given.1⟩
  unfold resolveSchemas
  simp only [bind_eq_ok, pure_eq_ok]
  constructor
  · intro given
    obtain ⟨schemas, run, rfl⟩ := given
    have pairs := (mapM_forall₂ run).imp fun p q => (entry p q).mp
    constructor
    · unfold Keyed.mapValues
      rw [← List.forall₂_eq_eq_eq, List.forall₂_map_right_iff]
      exact (pairs.imp fun p q both => both.1).flip.imp fun q p same => same
    · intro n s listed
      obtain ⟨_, _, _, known⟩ := mem_of_forall₂ pairs.flip listed
      exact known
  · intro given
    obtain ⟨same, known⟩ := given
    refine ⟨_, mapM_of_forall₂ ?_, congrArg Arena.mk same⟩
    unfold Keyed.mapValues
    rw [List.forall₂_map_right_iff, List.forall₂_same]
    intro p listed
    exact (entry _ _).mpr ⟨rfl, known p.1 p.2 listed⟩

theorem resolvePaths_nil (h : doc.paths = []) : doc.resolvePaths = .ok [] := by
  unfold resolvePaths
  rw [h]
  rfl

theorem resolve_of_plain {paths : List (String × PathItem)}
    (resolves : doc.resolvePaths = .ok paths)
    (items : ∀ n s, (n, s) ∈ doc.declaredSchemas → ∃ t, s = .item t)
    (known : ∀ n s, (n, s) ∈ doc.declaredSchemas → doc.Knows s)
    (unmapped : ∀ n s, (n, s) ∈ doc.declaredSchemas → s.Unmapped) :
    doc.resolve = .ok ⟨{ doc with
        paths, components := doc.components.map fun _ => {}, definitions := [] },
      ⟨Keyed.mapValues normalRef doc.declaredSchemas⟩⟩ := by
  let arena : Arena := ⟨Keyed.mapValues normalRef doc.declaredSchemas⟩
  have stored : ∀ n s, (n, s) ∈ arena.schemas →
      ∃ original, (n, original) ∈ doc.declaredSchemas ∧ s = normalRef original := by
    intro n s listed
    obtain ⟨p, mem, same⟩ := List.mem_map.mp listed
    cases same
    exact ⟨p.2, mem, rfl⟩
  have stands : ∀ n ∈ arena.names, ∃ t, arena.StandsFor n t := by
    intro n mem
    obtain ⟨s, found⟩ := Keyed.find?_of_mem_keys mem
    obtain ⟨original, listed, rfl⟩ := stored n s (Keyed.mem_of_find? found)
    obtain ⟨t, rfl⟩ := items n original listed
    rw [normalRef] at found
    exact ⟨n, .item found⟩
  have entries : arena.mappingEntries = [] := by
    unfold Arena.mappingEntries
    rw [List.flatMap_eq_nil_iff]
    intro p listed
    obtain ⟨n, s⟩ := p
    obtain ⟨original, mem, rfl⟩ := stored n s listed
    exact (unmapped n original mem).normal.entries n
  have injected : arena.injectDiscriminators = .ok ⟨arena, []⟩ := by
    unfold Arena.injectDiscriminators
    rw [entries]
    rfl
  exact resolve_eq_ok.mpr ⟨paths, arena, _, resolves, resolveSchemas_iff.mpr ⟨rfl, known⟩, stands,
    injected, rfl⟩

theorem resolve_holder {key path inner outer : String} {paths : List (String × PathItem)}
    (resolves : doc.resolvePaths = .ok paths)
    (declared : doc.declaredSchemas = [(inner, .item {}), (outer, .item (holder key path))])
    (known : doc.declares inner = true) (named : Pointer.schemaName? path = some inner)
    (spelled : normalReference path = path) :
    doc.resolve = .ok ⟨{ doc with
        paths, components := doc.components.map fun _ => {}, definitions := [] },
      ⟨[(inner, .item {}), (outer, .item (holder key path))]⟩⟩ := by
  have either : ∀ n s, (n, s) ∈ doc.declaredSchemas →
      s = .item {} ∨ s = .item (holder key path) := by
    intro n s listed
    rw [declared] at listed
    simp only [List.mem_cons, Prod.mk.injEq, List.not_mem_nil, or_false] at listed
    rcases listed with ⟨_, rfl⟩ | ⟨_, rfl⟩
    · exact .inl rfl
    · exact .inr rfl
  have normal : Keyed.mapValues normalRef doc.declaredSchemas =
      [(inner, .item {}), (outer, .item (holder key path))] := by
    rw [declared]
    simp [Keyed.mapValues, normalRef, normalSchema, normalTable, normalList, normalOption,
      normalAdditional, holder, spelled]
  rw [← normal]
  apply resolve_of_plain resolves
  · intro n s listed
    rcases either n s listed with rfl | rfl
    · exact ⟨_, rfl⟩
    · exact ⟨_, rfl⟩
  · intro n s listed other mentioned
    rcases either n s listed with rfl | rfl
    · exact absurd (empty_flat.mentions_iff.mp mentioned) empty_holds
    · cases holder_holds.mp (holder_flat.mentions_iff.mp mentioned)
      exact ⟨inner, named, known⟩
  · intro n s listed t d nested given
    rcases either n s listed with rfl | rfl
    · cases empty_flat.nests_iff.mp nested
      cases given
    · cases holder_flat.nests_iff.mp nested
      cases given

theorem resolve_standsFor {resolved : Resolved} (h : doc.resolve = .ok resolved) {n : String}
    (mem : n ∈ resolved.arena.names) : ∃ t, resolved.arena.StandsFor n t := by
  obtain ⟨_, arena, i, _, _, stands, injected, rfl⟩ := resolve_eq_ok.mp h
  have tracks := Arena.injectDiscriminators_tracks injected
  have known : n ∈ arena.names := tracks.names ▸ mem
  obtain ⟨t, chain⟩ := stands n known
  exact ⟨t, (Arena.standsFor_congr tracks.ref tracks.item).mpr chain⟩

theorem resolve_covers {resolved : Resolved} (h : doc.resolve = .ok resolved) {r : SchemaRef}
    (known : ∀ path, r.Mentions path →
      ∃ n ∈ resolved.arena.names, Pointer.schemaName? path = some n) :
    resolved.arena.Covers r := by
  intro path mentioned
  obtain ⟨n, mem, named⟩ := known path mentioned
  obtain ⟨t, stands⟩ := resolve_standsFor h mem
  exact ⟨n, t, named, stands⟩

theorem resolve_uses_covers {resolved : Resolved} (h : doc.resolve = .ok resolved) {r : SchemaRef}
    (uses : resolved.document.Uses r) : resolved.arena.Covers r := by
  apply resolve_covers h
  intro path mentioned
  obtain ⟨n, mem, _, named⟩ := resolve_uses_canonical h uses mentioned
  exact ⟨n, mem, named⟩

theorem resolve_closed {resolved : Resolved} (h : doc.resolve = .ok resolved) :
    resolved.arena.Closed := by
  intro n s found
  apply resolve_covers h
  intro path mentioned
  obtain ⟨m, mem, _, named⟩ := resolve_arena_canonical h (Keyed.mem_of_find? found) mentioned
  exact ⟨m, mem, named⟩

end Document

end TypedClients
