import TypedClients.Proofs.Respelling
import TypedClients.Proofs.WellFormed

namespace TypedClients

structure Schema.DistinctKeys (s : Schema) : Prop where
  properties : (Keyed.keys s.properties).Nodup
  dependentSchemas : (Keyed.keys s.dependentSchemas).Nodup
  patternProperties : (Keyed.keys s.patternProperties).Nodup
  definitions : (Keyed.keys s.definitions).Nodup

namespace SchemaRef

/-- The names are distinct in the schema and in every schema that is given in place inside. -/
def Distinct (r : SchemaRef) : Prop := ∀ s, r.Nests s → s.DistinctKeys

variable {s : Schema} {c : SchemaRef}

theorem distinct_ref (path : String) : Distinct (.ref path) := by
  intro s nested
  cases nested

theorem Distinct.keys (h : Distinct (.item s)) : s.DistinctKeys := h s (.self s)

theorem Distinct.inside (h : Distinct (.item s)) (held : s.Holds c) : Distinct c :=
  fun t nested => h t (.inside held nested)

theorem distinct_item (keys : s.DistinctKeys) (inside : ∀ c, s.Holds c → Distinct c) :
    Distinct (.item s) := by
  intro t nested
  cases nested with
  | self => exact keys
  | inside held nested => exact inside _ held t nested

end SchemaRef

open Shape

section

variable {σ α : Type} [Source σ] {read : σ → Option α} {f : Fields σ} {name : String} {a : α}

theorem mem_of_list {as : List α} (h : f.withDefault name (listOf read) [] = some as)
    (mem : a ∈ as) : ∃ value, read value = some a := by
  unfold Fields.withDefault at h
  split at h
  · obtain ⟨items, _, run⟩ := Option.bind_eq_some_iff.mp h
    exact read_of_mapM run mem
  · cases h
    cases mem

theorem mem_of_table {table : List (String × α)} {key : String}
    (h : f.withDefault name (tableOf read) [] = some table) (mem : (key, a) ∈ table) :
    ∃ value, read value = some a := by
  unfold Fields.withDefault at h
  split at h
  · exact (tableOf_keys h).2 key a mem
  · cases h
    cases mem

end

namespace Schema

/-- A schema that was read has its tables from tables, and what it holds was read as well. -/
theorem readWith_holds {sub : Datum → Option SchemaRef} {d : Datum} {s : Schema}
    (h : readWith sub d = some s) :
    s.DistinctKeys ∧ ∀ c, s.Holds c → ∃ value, sub value = some c := by
  unfold readWith at h
  obtain ⟨f, _, h⟩ := Option.bind_eq_some_iff.mp h
  obtain ⟨keywords, _, h⟩ := Option.bind_eq_some_iff.mp h
  obtain ⟨properties, properties_read, h⟩ := Option.bind_eq_some_iff.mp h
  obtain ⟨additional, additional_read, h⟩ := Option.bind_eq_some_iff.mp h
  obtain ⟨patterns, patterns_read, h⟩ := Option.bind_eq_some_iff.mp h
  obtain ⟨dependents, dependents_read, h⟩ := Option.bind_eq_some_iff.mp h
  obtain ⟨items, items_read, h⟩ := Option.bind_eq_some_iff.mp h
  obtain ⟨allOf, allOf_read, h⟩ := Option.bind_eq_some_iff.mp h
  obtain ⟨oneOf, oneOf_read, h⟩ := Option.bind_eq_some_iff.mp h
  obtain ⟨anyOf, anyOf_read, h⟩ := Option.bind_eq_some_iff.mp h
  obtain ⟨notSchema, not_read, h⟩ := Option.bind_eq_some_iff.mp h
  obtain ⟨ifSchema, if_read, h⟩ := Option.bind_eq_some_iff.mp h
  obtain ⟨thenSchema, then_read, h⟩ := Option.bind_eq_some_iff.mp h
  obtain ⟨elseSchema, else_read, h⟩ := Option.bind_eq_some_iff.mp h
  obtain ⟨definitions, definitions_read, same⟩ := Option.bind_eq_some_iff.mp h
  cases same
  refine ⟨⟨distinct_of_withDefault properties_read, distinct_of_withDefault dependents_read,
    distinct_of_withDefault patterns_read, distinct_of_withDefault definitions_read⟩, ?_⟩
  intro c held
  cases held with
  | property mem => exact mem_of_table properties_read mem
  | items given =>
    cases (given : items = some c)
    exact optional_eq_some items_read
  | additional given =>
    cases (given : additional = some (.schema c))
    obtain ⟨value, read⟩ := optional_eq_some additional_read
    unfold readAdditional at read
    split at read
    · cases read
    · obtain ⟨_, inner, same⟩ := Option.map_eq_some_iff.mp read
      cases same
      exact ⟨_, inner⟩
  | allOf mem => exact mem_of_list allOf_read mem
  | anyOf mem => exact mem_of_list anyOf_read mem
  | oneOf mem => exact mem_of_list oneOf_read mem
  | not given =>
    cases (given : notSchema = some c)
    exact optional_eq_some not_read
  | ifBranch given =>
    cases (given : ifSchema = some c)
    exact optional_eq_some if_read
  | thenBranch given =>
    cases (given : thenSchema = some c)
    exact optional_eq_some then_read
  | elseBranch given =>
    cases (given : elseSchema = some c)
    exact optional_eq_some else_read
  | dependent mem => exact mem_of_table dependents_read mem
  | pattern mem => exact mem_of_table patterns_read mem
  | definition mem => exact mem_of_table definitions_read mem

theorem readRefWithin_distinct {depth : Nat} {d : Datum} {r : SchemaRef}
    (h : readRefWithin depth d = some r) : r.Distinct := by
  induction depth generalizing d r with
  | zero => cases h
  | succ depth ih =>
    rw [readRefWithin, referenced] at h
    split at h
    · cases h
      exact SchemaRef.distinct_ref _
    · obtain ⟨s, read, rfl⟩ := Option.map_eq_some_iff.mp h
      obtain ⟨keys, inside⟩ := readWith_holds read
      refine SchemaRef.distinct_item keys fun c held => ?_
      obtain ⟨_, given⟩ := inside c held
      exact ih given

end Schema

theorem SchemaRef.read_distinct {d : Datum} {r : SchemaRef} (h : SchemaRef.read d = some r) :
    r.Distinct := Schema.readRefWithin_distinct h

section

variable {σ : Type} [Source σ] {v : σ}

theorem schemaAt_distinct {r : SchemaRef} (h : schemaAt v = some r) : r.Distinct := by
  obtain ⟨_, _, read⟩ := Option.bind_eq_some_iff.mp h
  exact SchemaRef.read_distinct read

theorem Components.read_schemas {c : Components} (h : Components.read v = some c) {name : String}
    {r : SchemaRef} (mem : (name, r) ∈ c.schemas) : r.Distinct := by
  unfold Components.read at h
  obtain ⟨f, _, h⟩ := Option.bind_eq_some_iff.mp h
  obtain ⟨schemas, run, h⟩ := Option.bind_eq_some_iff.mp h
  obtain ⟨parameters, _, h⟩ := Option.bind_eq_some_iff.mp h
  obtain ⟨requestBodies, _, h⟩ := Option.bind_eq_some_iff.mp h
  obtain ⟨responses, _, same⟩ := Option.bind_eq_some_iff.mp h
  cases same
  obtain ⟨_, read⟩ := mem_of_table run mem
  exact schemaAt_distinct read

theorem Document.read_schemas {doc : Document} (h : Document.read v = some doc) {name : String}
    {r : SchemaRef} (mem : (name, r) ∈ doc.declaredSchemas) : r.Distinct := by
  unfold Document.read at h
  obtain ⟨f, _, h⟩ := Option.bind_eq_some_iff.mp h
  obtain ⟨openapi, _, h⟩ := Option.bind_eq_some_iff.mp h
  obtain ⟨info, _, h⟩ := Option.bind_eq_some_iff.mp h
  obtain ⟨paths, _, h⟩ := Option.bind_eq_some_iff.mp h
  obtain ⟨components, found, h⟩ := Option.bind_eq_some_iff.mp h
  obtain ⟨definitions, run, same⟩ := Option.bind_eq_some_iff.mp h
  cases same
  rcases Keyed.mem_insertAll mem with defined | declared
  · obtain ⟨_, read⟩ := mem_of_table run defined
    exact schemaAt_distinct read
  · cases components with
    | none => cases declared
    | some c =>
      obtain ⟨_, read⟩ := optional_eq_some found
      exact Components.read_schemas read declared

end

namespace Arena

/-- No name is stored twice, and no property of a stored schema stands there twice. -/
structure Distinct (arena : Arena) : Prop where
  names : arena.names.Nodup
  properties : ∀ n s, (n, .item s) ∈ arena.schemas → (Keyed.keys s.properties).Nodup

theorem Distinct.respelled {arena : Arena} (h : arena.Distinct) : arena.respelled.Distinct := by
  refine ⟨respelled_names.symm ▸ h.names, fun n t stored => ?_⟩
  obtain ⟨⟨name, r⟩, listed, same⟩ := List.mem_map.mp stored
  obtain ⟨rfl, respelled⟩ := Prod.mk.inj same
  cases r with
  | ref path => cases respelled
  | item s =>
    cases respelled
    have kept : Keyed.keys (normalSchema s).properties = Keyed.keys s.properties := by
      cases s
      rw [normalSchema, normalTable_eq, Keyed.mapValues, Keyed.keys, List.map_map]
      rfl
    exact kept ▸ h.properties name s listed

end Arena

theorem Document.read_arena {σ : Type} [Source σ] {v : σ} {doc : Document}
    (read : Document.read v = some doc) {arena : Arena} (h : doc.resolveSchemas = .ok arena) :
    arena.Distinct := by
  obtain ⟨rfl, _⟩ := Document.resolveSchemas_iff_respelled.mp h
  refine Arena.Distinct.respelled ⟨?_, fun n s stored => ?_⟩
  · exact Keyed.nodup_keys_insertAll (Document.read_distinct read).definitions
  · exact (Document.read_schemas read stored).keys.properties

theorem Document.Read.arena {doc : Document} (h : doc.Read) {arena : Arena}
    (run : doc.resolveSchemas = .ok arena) : arena.Distinct := by
  have all : ∀ arena, doc.resolveSchemas = .ok arena → arena.Distinct :=
    h.holds (P := fun doc => ∀ arena, doc.resolveSchemas = .ok arena → arena.Distinct)
      (fun read _ => Document.read_arena read) (fun read _ => Document.read_arena read)
  exact all arena run

end TypedClients
