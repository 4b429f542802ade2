import TypedClients.Document.Parse
import TypedClients.Proofs.Keyed
import TypedClients.Proofs.Outcome
import TypedClients.Resolve.Resolved

namespace TypedClients

/-- Every path stands in the document once, and every verb under a path once and in its place. -/
structure Document.WellFormed (doc : Document) : Prop where
  routes : (Keyed.keys doc.paths).Nodup
  verbs : ∀ route item, (route, item) ∈ doc.paths →
    (item.operations.map Prod.fst).Sublist Verb.all

/-- No schema is declared twice among the components, nor among the definitions. -/
structure Document.Distinct (doc : Document) : Prop where
  components : (Keyed.keys doc.componentSchemas).Nodup
  definitions : (Keyed.keys doc.definitions).Nodup

namespace Document.Distinct

variable {doc : Document} (distinct : doc.Distinct)
include distinct

theorem declaredSchemas_eq : doc.declaredSchemas =
    (doc.definitions.map fun p => (p.1, (Keyed.find? p.1 doc.componentSchemas).getD p.2)) ++
      doc.componentSchemas.filter fun p => p.1 ∉ Keyed.keys doc.definitions :=
  Keyed.insertAll_eq distinct.definitions distinct.components

theorem mem_declaredSchemas {name : String} {s : SchemaRef} :
    (name, s) ∈ doc.declaredSchemas ↔ (name, s) ∈ doc.componentSchemas ∨
      ((name, s) ∈ doc.definitions ∧ name ∉ Keyed.keys doc.componentSchemas) := by
  rw [distinct.declaredSchemas_eq, List.mem_append, List.mem_filter, List.mem_map]
  constructor
  · intro given
    rcases given with ⟨⟨n, t⟩, listed, same⟩ | ⟨listed, _⟩
    · obtain ⟨rfl, rfl⟩ := Prod.mk.inj same
      cases shadow : Keyed.find? n doc.componentSchemas with
      | none => exact .inr ⟨listed, Keyed.find?_eq_none.mp shadow⟩
      | some s => exact .inl (Keyed.mem_of_find? shadow)
    · exact .inl listed
  · intro given
    rcases given with listed | ⟨listed, unshadowed⟩
    · by_cases shadows : name ∈ Keyed.keys doc.definitions
      · obtain ⟨t, found⟩ := Keyed.find?_of_mem_keys shadows
        have override := Keyed.find?_of_mem distinct.components listed
        exact .inl ⟨(name, t), Keyed.mem_of_find? found, by simp [override]⟩
      · exact .inr ⟨listed, by simpa using shadows⟩
    · exact .inl ⟨(name, s), listed, by simp [Keyed.find?_eq_none.mpr unshadowed]⟩

end Document.Distinct

open Shape

theorem sublist_of_slots {verbs : List Verb} {slot : Verb → Option (Option (Verb × Operation))}
    {slots : List (Option (Verb × Operation))} (run : verbs.mapM slot = some slots)
    (own : ∀ verb p, slot verb = some (some p) → p.1 = verb) :
    ((slots.filterMap id).map Prod.fst).Sublist verbs := by
  induction verbs generalizing slots with
  | nil =>
    rw [List.mapM_nil] at run
    cases run
    exact .slnil
  | cons verb rest ih =>
    rw [List.mapM_cons] at run
    obtain ⟨first, at_verb, run⟩ := Option.bind_eq_some_iff.mp run
    obtain ⟨others, later, same⟩ := Option.bind_eq_some_iff.mp run
    cases same
    have kept := ih later
    cases first with
    | none => exact kept.cons verb
    | some p =>
      show ((p :: others.filterMap id).map Prod.fst).Sublist _
      rw [List.map_cons, own verb p at_verb]
      exact kept.cons_cons verb

theorem read_of_mapM {σ α : Type} {read : σ → Option α} {values : List σ} {as : List α} {a : α}
    (run : values.mapM read = some as) (mem : a ∈ as) : ∃ value, read value = some a := by
  induction values generalizing as with
  | nil =>
    rw [List.mapM_nil] at run
    cases run
    cases mem
  | cons value rest ih =>
    rw [List.mapM_cons] at run
    obtain ⟨first, given, run⟩ := Option.bind_eq_some_iff.mp run
    obtain ⟨others, later, same⟩ := Option.bind_eq_some_iff.mp run
    cases same
    rcases List.mem_cons.mp mem with rfl | listed
    · exact ⟨value, given⟩
    · exact ih later listed

theorem read_of_mem {σ α : Type} {read : σ → Option α} {entries : List (String × σ)}
    {pairs : List (String × α)} {key : String} {a : α}
    (run : (entries.mapM fun (key, value) => (read value).map fun a => (key, a)) = some pairs)
    (mem : (key, a) ∈ pairs) : ∃ value, read value = some a := by
  obtain ⟨entry, given⟩ := read_of_mapM run mem
  obtain ⟨b, found, same⟩ := Option.map_eq_some_iff.mp given
  cases same
  exact ⟨entry.2, found⟩

section

variable {σ : Type} [Source σ]

theorem PathItem.read_verbs {v : σ} {item : PathItem} (h : PathItem.read v = some item) :
    (item.operations.map Prod.fst).Sublist Verb.all := by
  unfold PathItem.read at h
  obtain ⟨f, _, h⟩ := Option.bind_eq_some_iff.mp h
  obtain ⟨parameters, _, h⟩ := Option.bind_eq_some_iff.mp h
  obtain ⟨slots, run, same⟩ := Option.bind_eq_some_iff.mp h
  cases same
  apply sublist_of_slots run
  intro verb p at_verb
  obtain ⟨op, _, same⟩ := Option.map_eq_some_iff.mp at_verb
  obtain ⟨o, _, rfl⟩ := Option.map_eq_some_iff.mp same
  rfl

theorem tableOf_keys {α : Type} {read : σ → Option α} {v : σ} {table : List (String × α)}
    (h : tableOf read v = some table) : (Keyed.keys table).Nodup ∧
      ∀ key a, (key, a) ∈ table → ∃ value, read value = some a := by
  unfold tableOf at h
  obtain ⟨entries, _, h⟩ := Option.bind_eq_some_iff.mp h
  obtain ⟨pairs, run, same⟩ := Option.bind_eq_some_iff.mp h
  cases same
  refine ⟨Keyed.nodup_keys_ofList pairs, fun key a mem => ?_⟩
  exact read_of_mem run ((Keyed.mem_insertAll mem).resolve_left List.not_mem_nil)

theorem distinct_of_withDefault {α : Type} {f : Fields σ} {name : String} {read : σ → Option α}
    {table : List (String × α)} (h : f.withDefault name (tableOf read) [] = some table) :
    (Keyed.keys table).Nodup := by
  unfold Fields.withDefault at h
  split at h
  · exact (tableOf_keys h).1
  · cases h
    exact .nil

theorem Document.read_wellFormed {v : σ} {doc : Document} (h : Document.read v = some doc) :
    doc.WellFormed := by
  unfold Document.read at h
  obtain ⟨f, _, h⟩ := Option.bind_eq_some_iff.mp h
  obtain ⟨openapi, _, h⟩ := Option.bind_eq_some_iff.mp h
  obtain ⟨info, _, h⟩ := Option.bind_eq_some_iff.mp h
  obtain ⟨paths, run, h⟩ := Option.bind_eq_some_iff.mp h
  obtain ⟨components, _, h⟩ := Option.bind_eq_some_iff.mp h
  obtain ⟨definitions, _, same⟩ := Option.bind_eq_some_iff.mp h
  cases same
  unfold Fields.withDefault at run
  split at run
  · obtain ⟨distinct, values⟩ := tableOf_keys run
    refine ⟨distinct, fun route item mem => ?_⟩
    obtain ⟨value, given⟩ := values route item mem
    exact PathItem.read_verbs given
  · cases run
    exact ⟨.nil, fun route item none => by cases none⟩

theorem Components.read_distinct {v : σ} {c : Components} (h : Components.read v = some c) :
    (Keyed.keys c.schemas).Nodup := by
  unfold Components.read at h
  obtain ⟨f, _, h⟩ := Option.bind_eq_some_iff.mp h
  obtain ⟨schemas, run, h⟩ := Option.bind_eq_some_iff.mp h
  obtain ⟨parameters, _, h⟩ := Option.bind_eq_some_iff.mp h
  obtain ⟨requestBodies, _, h⟩ := Option.bind_eq_some_iff.mp h
  obtain ⟨responses, _, same⟩ := Option.bind_eq_some_iff.mp h
  cases same
  exact distinct_of_withDefault run

theorem optional_eq_some {α : Type} {f : Fields σ} {name : String} {read : σ → Option α} {a : α}
    (h : f.optional name read = some (some a)) : ∃ v, read v = some a := by
  unfold Fields.optional at h
  split at h
  · rename_i v _
    split at h
    · cases h
    · obtain ⟨b, given, same⟩ := Option.map_eq_some_iff.mp h
      cases same
      exact ⟨v, given⟩
  · split at h <;> cases h

theorem Document.read_distinct {v : σ} {doc : Document} (h : Document.read v = some doc) :
    doc.Distinct := by
  unfold Document.read at h
  obtain ⟨f, _, h⟩ := Option.bind_eq_some_iff.mp h
  obtain ⟨openapi, _, h⟩ := Option.bind_eq_some_iff.mp h
  obtain ⟨info, _, h⟩ := Option.bind_eq_some_iff.mp h
  obtain ⟨paths, _, h⟩ := Option.bind_eq_some_iff.mp h
  obtain ⟨components, found, h⟩ := Option.bind_eq_some_iff.mp h
  obtain ⟨definitions, run, same⟩ := Option.bind_eq_some_iff.mp h
  cases same
  refine ⟨?_, distinct_of_withDefault run⟩
  cases components with
  | none => exact .nil
  | some c =>
    obtain ⟨_, given⟩ := optional_eq_some found
    exact Components.read_distinct given

end

namespace Document

open Outcome

variable {text : String} {doc : Document} {P : Document → Prop}

theorem checkVersion_eq_ok {source : Document} (h : source.checkVersion = .ok doc) :
    source = doc := by
  unfold checkVersion at h
  split at h
  · cases h
    rfl
  · cases h

theorem ofJson_holds (read : ∀ {v : Datum} {doc}, Document.read v = some doc → P doc)
    {value : Json} (h : ofJson value = .ok doc) : P doc := by
  unfold ofJson at h
  extract_lets rest at h
  have step : ∀ v : Json, rest v = .ok doc → P doc := by
    intro v run
    unfold rest at run
    split at run
    · rename_i source given
      rw [← checkVersion_eq_ok run]
      exact read given
    · cases run
  split at h
  · exact step _ h
  · cases h

theorem parseJson_holds (read : ∀ {v : Datum} {doc}, Document.read v = some doc → P doc)
    (h : parseJson text = .ok doc) : P doc := by
  unfold parseJson at h
  split at h
  · exact ofJson_holds read h
  · cases h

/-- A document is read from the values of a text or, for an older version, from what replaces
them. -/
theorem parseYaml_holds (read : ∀ {v : Datum} {doc}, Document.read v = some doc → P doc)
    (readPlace : ∀ {v : Place} {doc}, Document.read v = some doc → P doc)
    (h : parseYaml text = .ok doc) : P doc := by
  unfold parseYaml at h
  rw [Option.getD_eq_iff] at h
  rcases h with given | ⟨_, failed⟩
  · obtain ⟨node, _, given⟩ := Option.bind_eq_some_iff.mp given
    obtain ⟨swagger, _, given⟩ := Option.bind_eq_some_iff.mp given
    split at given
    · obtain ⟨value, _, same⟩ := Option.bind_eq_some_iff.mp given
      exact ofJson_holds read (Option.some.inj same)
    · obtain ⟨source, found, same⟩ := Option.bind_eq_some_iff.mp given
      rw [← checkVersion_eq_ok (Option.some.inj same)]
      exact readPlace found
  · cases failed

/-- The document comes from the text of a file. -/
def Read (doc : Document) : Prop := ∃ text, parseJson text = .ok doc ∨ parseYaml text = .ok doc

namespace Read

theorem holds (read : ∀ {v : Datum} {doc}, Document.read v = some doc → P doc)
    (readPlace : ∀ {v : Place} {doc}, Document.read v = some doc → P doc) (h : doc.Read) :
    P doc := by
  obtain ⟨text, json | yaml⟩ := h
  · exact parseJson_holds read json
  · exact parseYaml_holds read readPlace yaml

theorem wellFormed (h : doc.Read) : doc.WellFormed := h.holds read_wellFormed read_wellFormed

theorem distinct (h : doc.Read) : doc.Distinct := h.holds read_distinct read_distinct

end Read

end Document

end TypedClients
