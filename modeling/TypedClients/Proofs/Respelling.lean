import TypedClients.Proofs.Injection
import TypedClients.Proofs.Resolution

namespace TypedClients

namespace SchemaRef

theorem inlined_normalRef (r : SchemaRef) : (normalRef r).inlined = r.inlined.map normalSchema := by
  induction r using SchemaRef.induction with
  | ref path =>
    rw [normalRef, inlined, inlined]
    rfl
  | item s ih =>
    rw [normalRef, inlined_item, inlined_item, Schema.children_normalSchema, List.map_cons,
      List.map_flatMap, List.flatMap_map]
    congr 1
    apply List.flatMap_congr
    intro x child
    exact ih x.2 (Schema.holds_iff_child.mpr ⟨x.1, child⟩)

theorem schemaName?_normalReference {path name : String} :
    Pointer.schemaName? (normalReference path) = some name ↔
      Pointer.schemaName? path = some name := by
  unfold normalReference
  cases named : Pointer.schemaName? path with
  | none => simp only [named]
  | some n => simp only [Pointer.schemaName?_ofSchema (Pointer.schemaName?_ne_empty named)]

end SchemaRef

namespace Arena

def respelled (arena : Arena) : Arena := ⟨Keyed.mapValues normalRef arena.schemas⟩

variable {arena : Arena} {n m t : String} {e : MappingEntry}

theorem respelled_names : arena.respelled.names = arena.names := by
  simp [respelled, names, Keyed.keys, Keyed.mapValues]

theorem respelled_find? (n : String) :
    arena.respelled.find? n = (arena.find? n).map normalRef := Keyed.find?_mapValues ..

theorem respelled_aliasOf : arena.respelled.AliasOf n m ↔ arena.AliasOf n m := by
  unfold AliasOf
  rw [respelled_find?]
  cases arena.find? n with
  | none => simp
  | some r =>
    cases r with
    | item s => simp [normalRef]
    | ref path => simp [normalRef, SchemaRef.schemaName?_normalReference]

theorem respelled_item : (∃ s, arena.respelled.find? n = some (.item s)) ↔
    ∃ s, arena.find? n = some (.item s) := by
  rw [respelled_find?]
  cases arena.find? n with
  | none => simp
  | some r => cases r <;> simp [normalRef]

theorem respelled_standsFor : arena.respelled.StandsFor n t ↔ arena.StandsFor n t := by
  have steps : arena.respelled.AliasOf = arena.AliasOf := by
    funext n m
    exact propext respelled_aliasOf
  unfold StandsFor
  rw [steps, respelled_item]

theorem respelled_designates : arena.respelled.Designates e t ↔ arena.Designates e t := by
  unfold Designates
  simp only [respelled_standsFor]

theorem respelled_mappingEntries : arena.respelled.mappingEntries = arena.mappingEntries := by
  unfold mappingEntries respelled Keyed.mapValues
  rw [List.flatMap_map]
  apply List.flatMap_congr
  intro p _
  dsimp only
  rw [SchemaRef.inlined_normalRef, List.flatMap_map]
  apply List.flatMap_congr
  intro s _
  cases s
  rw [normalSchema]
  rfl

theorem respelled_entriesFor : arena.respelled.entriesFor t = arena.entriesFor t := by
  unfold entriesFor
  rw [respelled_mappingEntries]
  simp only [respelled_designates]

end Arena

/-- The schemas that the document declares, as they are spelled there. -/
def Document.declaredArena (doc : Document) : Arena := ⟨doc.declaredSchemas⟩

theorem Document.resolveSchemas_iff_respelled {doc : Document} {arena : Arena} :
    doc.resolveSchemas = .ok arena ↔ arena = doc.declaredArena.respelled ∧
      ∀ n s, (n, s) ∈ doc.declaredSchemas → doc.Knows s := by
  rw [resolveSchemas_iff]
  refine and_congr_left fun _ => ⟨fun same => ?_, fun same => congrArg Arena.schemas same⟩
  cases arena
  exact congrArg Arena.mk same

end TypedClients
