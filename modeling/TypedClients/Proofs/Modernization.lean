import TypedClients.Proofs.Pointer
import TypedClients.Proofs.RequestBodies

namespace TypedClients

namespace Keyed

variable {α β : Type} (f : String → α → β)

theorem map_insertSorted (key : String) (v : α) (pairs : List (String × α)) :
    (insertSorted key v pairs).map (fun p => (p.1, f p.1 p.2)) =
      insertSorted key (f key v) (pairs.map fun p => (p.1, f p.1 p.2)) := by
  induction pairs with
  | nil => rfl
  | cons p rest ih =>
    obtain ⟨k, w⟩ := p
    simp only [insertSorted, List.map_cons]
    split
    · rename_i same
      subst same
      rfl
    · split
      · rfl
      · rw [List.map_cons, ih]

theorem map_erase (key : String) (pairs : List (String × α)) :
    (erase key pairs).map (fun p => (p.1, f p.1 p.2)) =
      erase key (pairs.map fun p => (p.1, f p.1 p.2)) := by
  unfold erase
  rw [List.filter_map]
  rfl

end Keyed

namespace Swagger

open Text (afterLead? afterLead?_append eq_append_of_afterLead?)

variable {fields : Fields} {key target name : String} {v w : Json}

/-- No place begins like another one, old or new. -/
theorem referencePlaces_apart : ∀ place ∈ referencePlaces, ∀ other ∈ referencePlaces,
    (place.1.toList <+: other.1.toList → place = other) ∧
      ¬place.1.toList <+: other.2.toList ∧ ¬other.2.toList <+: place.1.toList := by
  decide

theorem prefix_or_prefix_of_append {a b s t : String} (same : a ++ s = b ++ t) :
    a.toList <+: b.toList ∨ b.toList <+: a.toList := by
  have whole : a.toList ++ s.toList = b.toList ++ t.toList := by
    rw [← String.toList_append, ← String.toList_append, same]
  have second : b.toList <+: a.toList ++ s.toList := whole ▸ List.prefix_append _ _
  exact List.prefix_or_prefix_of_prefix (List.prefix_append _ _) second

theorem movedReference_cases (target : String) :
    (∃ place ∈ referencePlaces, ∃ name, target = place.1 ++ name ∧
      movedReference target = place.2 ++ name) ∨
    ((∀ place ∈ referencePlaces, afterLead? place.1 target = none) ∧
      movedReference target = target) := by
  have moved : movedReference target = (referencePlaces.findSome? fun place =>
    (afterLead? place.1 target).map (place.2 ++ ·)).getD target := rfl
  rw [moved]
  cases found : referencePlaces.findSome? fun place =>
      (afterLead? place.1 target).map (place.2 ++ ·) with
  | none =>
    refine .inr ⟨fun place listed => ?_, rfl⟩
    exact Option.map_eq_none_iff.mp (List.findSome?_eq_none_iff.mp found place listed)
  | some moved =>
    obtain ⟨place, listed, written⟩ := List.exists_of_findSome?_eq_some found
    obtain ⟨name, rest, rfl⟩ := Option.map_eq_some_iff.mp written
    exact .inl ⟨place, listed, name, eq_append_of_afterLead? rest, rfl⟩

theorem movedReference_new {place : String × String} (listed : place ∈ referencePlaces)
    (target : String) : afterLead? place.1 (movedReference target) = none := by
  rcases movedReference_cases target with ⟨other, new, name, _, moved⟩ | ⟨none, moved⟩
  · rw [moved]
    cases cut : afterLead? place.1 (other.2 ++ name) with
    | none => rfl
    | some rest =>
      obtain ⟨_, apart, apart'⟩ := referencePlaces_apart place listed other new
      rcases prefix_or_prefix_of_append (eq_append_of_afterLead? cut) with inside | around
      · exact absurd inside apart'
      · exact absurd around apart
  · rw [moved]
    exact none place listed

theorem movedReference_again (target : String) :
    movedReference (movedReference target) = movedReference target := by
  rcases movedReference_cases (movedReference target) with ⟨place, old, name, whole, _⟩ | ⟨_, same⟩
  · have none := movedReference_new old target
    rw [whole, afterLead?_append] at none
    cases none
  · exact same

theorem moveReference_again (v : Json) : moveReference (moveReference v) = moveReference v := by
  cases v with
  | text target => exact congrArg Json.text (movedReference_again target)
  | _ => rfl

theorem find?_updateReference : Keyed.find? "$ref" (updateField "$ref" moveReference fields) =
    (Keyed.find? "$ref" fields).map moveReference := find?_updateField_self moveReference fields

theorem find?_renameNullable_self : Keyed.find? "nullable" (renameNullable fields) =
    (Keyed.find? "x-nullable" fields).or (Keyed.find? "nullable" fields) := by
  unfold renameNullable
  cases Keyed.find? "x-nullable" fields with
  | none => rfl
  | some v => exact Keyed.find?_insertSorted_self "nullable" v _

theorem find?_renameNullable_extension :
    Keyed.find? "x-nullable" (renameNullable fields) = none := by
  unfold renameNullable
  cases extension : Keyed.find? "x-nullable" fields with
  | none => exact extension
  | some v =>
    show Keyed.find? "x-nullable" (Keyed.insertSorted "nullable" v _) = none
    rw [Keyed.find?_insertSorted_of_ne _ _ (by decide), Keyed.find?_erase_self]

theorem typeOf?_congr {others : Fields}
    (h : Keyed.find? "type" others = Keyed.find? "type" fields) : typeOf? others = typeOf? fields :=
  congrArg (Option.bind · Json.text?) h

theorem find?_renameKeywords_reference : Keyed.find? "$ref" (renameKeywords fields) =
    (Keyed.find? "$ref" fields).map moveReference := by
  rw [renameKeywords_eq, find?_renameFile (by decide) (by decide),
    find?_renameNullable (by decide) (by decide), find?_updateReference]

theorem find?_renameKeywords_nullable : Keyed.find? "nullable" (renameKeywords fields) =
    (Keyed.find? "x-nullable" fields).or (Keyed.find? "nullable" fields) := by
  rw [renameKeywords_eq, find?_renameFile (by decide) (by decide), find?_renameNullable_self,
    find?_updateField_of_ne _ _ (by decide), find?_updateField_of_ne _ _ (by decide)]

theorem find?_renameKeywords_extension :
    Keyed.find? "x-nullable" (renameKeywords fields) = none := by
  rw [renameKeywords_eq, find?_renameFile (by decide) (by decide), find?_renameNullable_extension]

theorem typeOf?_renameNullable :
    typeOf? (renameNullable (updateField "$ref" moveReference fields)) = typeOf? fields := by
  refine typeOf?_congr ?_
  rw [find?_renameNullable (by decide) (by decide), find?_updateField_of_ne _ _ (by decide)]

theorem renameKeywords_of_file (file : typeOf? fields = some "file") : renameKeywords fields =
    Keyed.insertSorted "format" (.text "binary") (Keyed.insertSorted "type" (.text "string")
      (renameNullable (updateField "$ref" moveReference fields))) := by
  rw [renameKeywords_eq, renameFile, typeOf?_renameNullable, file, if_pos (by decide)]

theorem renameKeywords_of_other (other : typeOf? fields ≠ some "file") : renameKeywords fields =
    renameNullable (updateField "$ref" moveReference fields) := by
  rw [renameKeywords_eq, renameFile, typeOf?_renameNullable, if_neg (by simpa using other)]

theorem find?_renameKeywords_file (file : typeOf? fields = some "file") :
    Keyed.find? "type" (renameKeywords fields) = some (.text "string") ∧
      Keyed.find? "format" (renameKeywords fields) = some (.text "binary") := by
  rw [renameKeywords_of_file file, Keyed.find?_insertSorted_self,
    Keyed.find?_insertSorted_of_ne _ _ (by decide), Keyed.find?_insertSorted_self]
  exact ⟨rfl, rfl⟩

theorem find?_renameKeywords_other (other : typeOf? fields ≠ some "file")
    (kept : key ∈ ["type", "format"]) :
    Keyed.find? key (renameKeywords fields) = Keyed.find? key fields := by
  have apart : ∀ key ∈ ["type", "format"],
      key ≠ "x-nullable" ∧ key ≠ "nullable" ∧ key ≠ "$ref" := by decide
  obtain ⟨extension, nullable, reference⟩ := apart key kept
  rw [renameKeywords_of_other other, find?_renameNullable extension nullable,
    find?_updateField_of_ne _ _ reference]

theorem typeOf?_renameKeywords : typeOf? (renameKeywords fields) ≠ some "file" := by
  by_cases file : typeOf? fields = some "file"
  · unfold typeOf?
    rw [(find?_renameKeywords_file file).1]
    decide
  · rwa [typeOf?_congr (find?_renameKeywords_other file List.mem_cons_self)]

theorem respelled_of_ne (h : key ≠ "x-nullable") : respelled key = key := if_neg h

theorem updateField_insertSorted {other : String} (f : Json → Json) (v : Json) (fields : Fields)
    (h : other ≠ key) : updateField key f (Keyed.insertSorted other v fields) =
      Keyed.insertSorted other v (updateField key f fields) := by
  have mapped := Keyed.map_insertSorted (fun k v => if k = key then f v else v) other v fields
  rw [if_neg h] at mapped
  exact mapped

theorem updateField_again {f : Json → Json} (again : ∀ v, f (f v) = f v) (fields : Fields) :
    updateField key f (updateField key f fields) = updateField key f fields := by
  unfold updateField
  rw [List.map_map]
  refine List.map_congr_left fun (k, v) _ => Prod.ext rfl ?_
  show (if k = key then f (if k = key then f v else v) else _) = if k = key then f v else v
  split
  · exact again v
  · rfl

theorem updateReference_renameNullable (moved : updateField "$ref" moveReference fields = fields) :
    updateField "$ref" moveReference (renameNullable fields) = renameNullable fields := by
  unfold renameNullable
  split
  · rename_i v _
    have erased := Keyed.map_erase (fun k v => if k = "$ref" then moveReference v else v)
      "x-nullable" fields
    rw [updateField_insertSorted _ _ _ (by decide)]
    refine congrArg _ (erased.trans ?_)
    exact congrArg (Keyed.erase "x-nullable") moved
  · exact moved

theorem updateReference_renameKeywords :
    updateField "$ref" moveReference (renameKeywords fields) = renameKeywords fields := by
  have renamed := updateReference_renameNullable (updateField_again moveReference_again fields)
  rw [renameKeywords_eq]
  unfold renameFile
  split
  · rw [updateField_insertSorted _ _ _ (by decide), updateField_insertSorted _ _ _ (by decide),
      renamed]
  · exact renamed

theorem renameKeywords_again (fields : Fields) :
    renameKeywords (renameKeywords fields) = renameKeywords fields := by
  rw [renameKeywords_of_other typeOf?_renameKeywords, updateReference_renameKeywords,
    renameNullable, find?_renameKeywords_extension]

theorem modern_moveReference (v : Json) : modern (moveReference v) = moveReference (modern v) := by
  cases v <;> rfl

theorem mapValues_updateReference (fields : Fields) :
    Keyed.mapValues modern (updateField "$ref" moveReference fields) =
      updateField "$ref" moveReference (Keyed.mapValues modern fields) := by
  unfold Keyed.mapValues updateField
  rw [List.map_map, List.map_map]
  refine List.map_congr_left fun (k, v) _ => Prod.ext rfl ?_
  show modern (if k = "$ref" then moveReference v else v) =
    if k = "$ref" then moveReference (modern v) else modern v
  split
  · exact modern_moveReference v
  · rfl

theorem mapValues_insertSorted (v : Json) (fields : Fields) :
    Keyed.mapValues modern (Keyed.insertSorted key v fields) =
      Keyed.insertSorted key (modern v) (Keyed.mapValues modern fields) :=
  Keyed.map_insertSorted (fun _ => modern) key v fields

theorem mapValues_renameNullable (fields : Fields) :
    Keyed.mapValues modern (renameNullable fields) =
      renameNullable (Keyed.mapValues modern fields) := by
  unfold renameNullable
  rw [Keyed.find?_mapValues]
  cases Keyed.find? "x-nullable" fields with
  | none => rfl
  | some v =>
    exact (mapValues_insertSorted v _).trans
      (congrArg _ (Keyed.map_erase (fun _ => modern) "x-nullable" fields))

theorem typeOf?_mapValues {f : Json → Json} (texts : ∀ v, (f v).text? = v.text?)
    (fields : Fields) : typeOf? (Keyed.mapValues f fields) = typeOf? fields := by
  unfold typeOf?
  rw [Keyed.find?_mapValues]
  cases Keyed.find? "type" fields with
  | none => rfl
  | some v => exact texts v

theorem mapValues_renameKeywords (fields : Fields) :
    Keyed.mapValues modern (renameKeywords fields) =
      renameKeywords (Keyed.mapValues modern fields) := by
  have typed := typeOf?_mapValues text?_modern fields
  by_cases file : typeOf? fields = some "file"
  · rw [renameKeywords_of_file file, renameKeywords_of_file (typed.trans file),
      mapValues_insertSorted, mapValues_insertSorted, mapValues_renameNullable,
      mapValues_updateReference]
    rfl
  · rw [renameKeywords_of_other file, renameKeywords_of_other (by rwa [typed]),
      mapValues_renameNullable, mapValues_updateReference]

mutual

theorem modern_modern : (v : Json) → modern (modern v) = modern v
  | .null => rfl
  | .bool _ => rfl
  | .number _ => rfl
  | .text _ => rfl
  | .array items => by
    rw [modern, modern, modernItems_modern items]
  | .object fields => by
    have inside : Keyed.mapValues modern (modernFields fields) = modernFields fields := by
      rw [← modernFields_eq, modernFields_modern fields]
    rw [modern, modern, modernFields_eq (renameKeywords _), mapValues_renameKeywords, inside,
      renameKeywords_again]

theorem modernItems_modern :
    (items : List Json) → modernItems (modernItems items) = modernItems items
  | [] => rfl
  | v :: rest => by
    rw [modernItems, modernItems, modern_modern v, modernItems_modern rest]

theorem modernFields_modern : (fields : Fields) →
    modernFields (modernFields fields) = modernFields fields
  | [] => rfl
  | (key, v) :: rest => by
    rw [modernFields, modernFields, modern_modern v, modernFields_modern rest]

end

inductive Step where
  | key (name : String)
  | index (i : Nat)
deriving DecidableEq

namespace Step

def into : Step → Json → Option Json
  | .key name, v => v.field? name
  | .index i, v => v.items?.bind (·[i]?)

def respelled : Step → Step
  | .key name => .key (Swagger.respelled name)
  | .index i => .index i

end Step

def at? : List Step → Json → Option Json
  | [], v => some v
  | s :: rest, v => (s.into v).bind (at? rest)

/-- Entries that the new spelling takes the place of. -/
inductive Replaced (fields : Fields) : String → Prop where
  | reference {place : String × String} (old : place ∈ referencePlaces) (name : String)
      (given : Keyed.find? "$ref" fields = some (.text (place.1 ++ name))) : Replaced fields "$ref"
  | nullable (given : Keyed.contains "x-nullable" fields = true) : Replaced fields "nullable"
  | type (file : typeOf? fields = some "file") : Replaced fields "type"
  | format (file : typeOf? fields = some "file") : Replaced fields "format"

theorem not_replaced (other : key ∉ ["$ref", "nullable", "type", "format"]) :
    ¬Replaced fields key := by
  intro replaced
  cases replaced <;> exact other (by decide)

/-- The path leads from the first value to the second one and passes no entry that is replaced. -/
inductive Leads : List Step → Json → Json → Prop where
  | here (v : Json) : Leads [] v v
  | key {name : String} {path : List Step} {fields : Fields} {v w : Json}
      (found : Keyed.find? name fields = some v) (kept : ¬Replaced fields name)
      (later : Leads path v w) : Leads (.key name :: path) (.object fields) w
  | index {i : Nat} {path : List Step} {items : List Json} {v w : Json}
      (found : items[i]? = some v) (later : Leads path v w) :
      Leads (.index i :: path) (.array items) w

theorem modern_object (fields : Fields) :
    modern (.object fields) = .object (renameKeywords (Keyed.mapValues modern fields)) := by
  rw [modern, modernFields_eq]

/-- An entry that is not replaced stays, under its new name. -/
theorem find?_renameKeywords_kept (found : Keyed.find? key fields = some v)
    (kept : ¬Replaced fields key) :
    Keyed.find? (respelled key) (renameKeywords fields) = some v := by
  by_cases plain : key ∈ spelledKeys
  · simp only [spelledKeys, List.mem_cons, List.not_mem_nil, or_false] at plain
    rcases plain with rfl | rfl | rfl | rfl | rfl
    · show Keyed.find? "$ref" _ = _
      rw [find?_renameKeywords_reference, found]
      cases v with
      | text target =>
        rcases movedReference_cases target with ⟨place, old, name, rfl, _⟩ | ⟨_, same⟩
        · exact absurd (.reference old name found) kept
        · exact congrArg (fun s => some (Json.text s)) same
      | _ => rfl
    · show Keyed.find? "nullable" _ = _
      rw [find?_renameKeywords_nullable, found]
      rfl
    · show Keyed.find? "nullable" _ = _
      have absent : Keyed.find? "x-nullable" fields = none :=
        Option.not_isSome_iff_eq_none.mp fun given => kept (.nullable given)
      rw [find?_renameKeywords_nullable, absent, found]
      rfl
    · exact (find?_renameKeywords_other (fun file => kept (.type file)) (by decide)).trans found
    · exact (find?_renameKeywords_other (fun file => kept (.format file)) (by decide)).trans found
  · have other : respelled key = key := by
      refine respelled_of_ne ?_
      rintro rfl
      exact plain (by decide)
    rw [other, find?_renameKeywords plain, found]

theorem replaced_mapValues {f : Json → Json} (texts : ∀ v, (f v).text? = v.text?)
    (h : Replaced (Keyed.mapValues f fields) key) : Replaced fields key := by
  cases h with
  | reference old name given =>
    refine .reference old name ?_
    rw [Keyed.find?_mapValues] at given
    obtain ⟨v, found, same⟩ := Option.map_eq_some_iff.mp given
    have read := texts v
    rw [same] at read
    cases v with
    | text s => exact found.trans (congrArg (Option.map Json.text) read.symm)
    | _ => cases read
  | nullable given =>
    refine .nullable ?_
    rwa [Keyed.contains, Keyed.find?_mapValues, Option.isSome_map] at given
  | type file => exact .type ((typeOf?_mapValues texts fields).symm.trans file)
  | format file => exact .format ((typeOf?_mapValues texts fields).symm.trans file)

end Swagger

end TypedClients
