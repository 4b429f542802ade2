import TypedClients.Document.Basic
import TypedClients.Document.Pointer
import TypedClients.Decimal.Layout

namespace TypedClients

inductive Slot where
  | property (name : String)
  | items
  | additional
  | allOf (index : Nat)
  | anyOf (index : Nat)
  | oneOf (index : Nat)
  | not
  | ifBranch
  | thenBranch
  | elseBranch
  | dependent (name : String)
  | pattern (name : String)
  | definition (name : String)
deriving DecidableEq, Repr

def Slot.pointer : Slot → String
  | .property n => "properties/" ++ Pointer.escape n
  | .items => "items"
  | .additional => "additionalProperties"
  | .allOf i => "allOf/" ++ Decimal.digitText i
  | .anyOf i => "anyOf/" ++ Decimal.digitText i
  | .oneOf i => "oneOf/" ++ Decimal.digitText i
  | .not => "not"
  | .ifBranch => "if"
  | .thenBranch => "then"
  | .elseBranch => "else"
  | .dependent n => "dependentSchemas/" ++ Pointer.escape n
  | .pattern n => "patternProperties/" ++ Pointer.escape n
  | .definition n => "definitions/" ++ Pointer.escape n

def namedSlots (slot : String → Slot) (table : List (String × SchemaRef)) :
    List (Slot × SchemaRef) :=
  table.map fun (name, s) => (slot name, s)

def numberedSlots (slot : Nat → Slot) (members : List SchemaRef) : List (Slot × SchemaRef) :=
  members.zipIdx.map fun (s, i) => (slot i, s)

def optionalSlot (slot : Slot) (s : Option SchemaRef) : List (Slot × SchemaRef) :=
  s.toList.map fun s => (slot, s)

namespace Schema

def additional? (s : Schema) : Option SchemaRef :=
  match s.additionalProperties with
  | some (.schema a) => some a
  | _ => none

/-- The schemas directly inside a schema, in walk order. -/
def subschemas (s : Schema) : List SchemaRef :=
  s.properties.map Prod.snd ++ s.items.toList ++ s.additional?.toList ++ s.allOf ++ s.anyOf ++
  s.oneOf ++ s.notSchema.toList ++ s.ifSchema.toList ++ s.thenSchema.toList ++
  s.elseSchema.toList ++ s.dependentSchemas.map Prod.snd ++ s.patternProperties.map Prod.snd ++
  s.definitions.map Prod.snd

/-- Each of them with its place; a walk that rewrites them needs both. -/
def children (s : Schema) : List (Slot × SchemaRef) :=
  namedSlots .property s.properties ++ optionalSlot .items s.items ++
  optionalSlot .additional s.additional? ++ numberedSlots .allOf s.allOf ++
  numberedSlots .anyOf s.anyOf ++ numberedSlots .oneOf s.oneOf ++ optionalSlot .not s.notSchema ++
  optionalSlot .ifBranch s.ifSchema ++ optionalSlot .thenBranch s.thenSchema ++
  optionalSlot .elseBranch s.elseSchema ++ namedSlots .dependent s.dependentSchemas ++
  namedSlots .pattern s.patternProperties ++ namedSlots .definition s.definitions

theorem children_snd (s : Schema) : s.children.map Prod.snd = s.subschemas := by
  have named : ∀ (slot : String → Slot) table,
      (namedSlots slot table).map Prod.snd = table.map Prod.snd := by
    intro slot table
    rw [namedSlots, List.map_map]
    rfl
  have numbered : ∀ (slot : Nat → Slot) members,
      (numberedSlots slot members).map Prod.snd = members := by
    intro slot members
    rw [numberedSlots, List.map_map]
    exact List.zipIdx_map_fst 0 members
  have optional : ∀ slot (s : Option SchemaRef),
      (optionalSlot slot s).map Prod.snd = s.toList := by
    intro slot s
    rw [optionalSlot, List.map_map]
    exact List.map_id _
  simp only [children, subschemas, List.map_append, named, numbered, optional]

end Schema

theorem sizeOf_lt_of_mem_table {table : List (String × SchemaRef)} {k : String} {c : SchemaRef}
    (h : (k, c) ∈ table) : sizeOf c < sizeOf table := by
  have h := List.sizeOf_lt_of_mem h
  simp only [Prod.mk.sizeOf_spec] at h
  omega

theorem sizeOf_lt_of_mem_namedSlots {slot : String → Slot} {table : List (String × SchemaRef)}
    {x : Slot × SchemaRef} (h : x ∈ namedSlots slot table) : sizeOf x.2 < sizeOf table := by
  obtain ⟨⟨k, c⟩, hm, rfl⟩ := List.mem_map.mp h
  exact sizeOf_lt_of_mem_table hm

theorem sizeOf_lt_of_mem_numberedSlots {slot : Nat → Slot} {members : List SchemaRef}
    {x : Slot × SchemaRef} (h : x ∈ numberedSlots slot members) : sizeOf x.2 < sizeOf members := by
  obtain ⟨⟨c, i⟩, hm, rfl⟩ := List.mem_map.mp h
  exact List.sizeOf_lt_of_mem (List.fst_mem_of_mem_zipIdx hm)

theorem sizeOf_lt_of_mem_optionalSlot {slot : Slot} {s : Option SchemaRef}
    {x : Slot × SchemaRef} (h : x ∈ optionalSlot slot s) : sizeOf x.2 < sizeOf s := by
  cases s with
  | none => simp [optionalSlot] at h
  | some c =>
    simp only [optionalSlot, Option.toList_some, List.map_cons, List.map_nil,
      List.mem_singleton] at h
    subst h
    simp

namespace Schema

theorem sizeOf_properties (s : Schema) : sizeOf s.properties < sizeOf s := by
  cases s; simp only [mk.sizeOf_spec]; omega

theorem sizeOf_items (s : Schema) : sizeOf s.items < sizeOf s := by
  cases s; simp only [mk.sizeOf_spec]; omega

theorem sizeOf_additionalProperties (s : Schema) : sizeOf s.additionalProperties < sizeOf s := by
  cases s; simp only [mk.sizeOf_spec]; omega

theorem sizeOf_additional? (s : Schema) : sizeOf s.additional? < sizeOf s := by
  have h := s.sizeOf_additionalProperties
  unfold additional?
  split
  · rename_i a ha
    rw [ha] at h
    simp only [Option.some.sizeOf_spec, Additional.schema.sizeOf_spec] at h ⊢
    omega
  · have : 0 < sizeOf s.additionalProperties := by cases s.additionalProperties with
    | none => decide
    | some _ => simp only [Option.some.sizeOf_spec]; omega
    simp only [Option.none.sizeOf_spec]
    omega

theorem sizeOf_allOf (s : Schema) : sizeOf s.allOf < sizeOf s := by
  cases s; simp only [mk.sizeOf_spec]; omega

theorem sizeOf_anyOf (s : Schema) : sizeOf s.anyOf < sizeOf s := by
  cases s; simp only [mk.sizeOf_spec]; omega

theorem sizeOf_oneOf (s : Schema) : sizeOf s.oneOf < sizeOf s := by
  cases s; simp only [mk.sizeOf_spec]; omega

theorem sizeOf_notSchema (s : Schema) : sizeOf s.notSchema < sizeOf s := by
  cases s; simp only [mk.sizeOf_spec]; omega

theorem sizeOf_ifSchema (s : Schema) : sizeOf s.ifSchema < sizeOf s := by
  cases s; simp only [mk.sizeOf_spec]; omega

theorem sizeOf_thenSchema (s : Schema) : sizeOf s.thenSchema < sizeOf s := by
  cases s; simp only [mk.sizeOf_spec]; omega

theorem sizeOf_elseSchema (s : Schema) : sizeOf s.elseSchema < sizeOf s := by
  cases s; simp only [mk.sizeOf_spec]; omega

theorem sizeOf_dependentSchemas (s : Schema) : sizeOf s.dependentSchemas < sizeOf s := by
  cases s; simp only [mk.sizeOf_spec]; omega

theorem sizeOf_patternProperties (s : Schema) : sizeOf s.patternProperties < sizeOf s := by
  cases s; simp only [mk.sizeOf_spec]; omega

theorem sizeOf_definitions (s : Schema) : sizeOf s.definitions < sizeOf s := by
  cases s; simp only [mk.sizeOf_spec]; omega

theorem sizeOf_lt_of_mem_children {s : Schema} {x : Slot × SchemaRef} (h : x ∈ s.children) :
    sizeOf x.2 < sizeOf s := by
  simp only [children, List.mem_append] at h
  rcases h with (((((((((((h | h) | h) | h) | h) | h) | h) | h) | h) | h) | h) | h) | h
  · exact Nat.lt_trans (sizeOf_lt_of_mem_namedSlots h) s.sizeOf_properties
  · exact Nat.lt_trans (sizeOf_lt_of_mem_optionalSlot h) s.sizeOf_items
  · exact Nat.lt_trans (sizeOf_lt_of_mem_optionalSlot h) s.sizeOf_additional?
  · exact Nat.lt_trans (sizeOf_lt_of_mem_numberedSlots h) s.sizeOf_allOf
  · exact Nat.lt_trans (sizeOf_lt_of_mem_numberedSlots h) s.sizeOf_anyOf
  · exact Nat.lt_trans (sizeOf_lt_of_mem_numberedSlots h) s.sizeOf_oneOf
  · exact Nat.lt_trans (sizeOf_lt_of_mem_optionalSlot h) s.sizeOf_notSchema
  · exact Nat.lt_trans (sizeOf_lt_of_mem_optionalSlot h) s.sizeOf_ifSchema
  · exact Nat.lt_trans (sizeOf_lt_of_mem_optionalSlot h) s.sizeOf_thenSchema
  · exact Nat.lt_trans (sizeOf_lt_of_mem_optionalSlot h) s.sizeOf_elseSchema
  · exact Nat.lt_trans (sizeOf_lt_of_mem_namedSlots h) s.sizeOf_dependentSchemas
  · exact Nat.lt_trans (sizeOf_lt_of_mem_namedSlots h) s.sizeOf_patternProperties
  · exact Nat.lt_trans (sizeOf_lt_of_mem_namedSlots h) s.sizeOf_definitions

theorem sizeOf_lt_of_mem_subschemas {s : Schema} {c : SchemaRef} (h : c ∈ s.subschemas) :
    sizeOf c < sizeOf s := by
  rw [← children_snd] at h
  obtain ⟨x, child, rfl⟩ := List.mem_map.mp h
  exact sizeOf_lt_of_mem_children child

end Schema

namespace SchemaRef

/-- A schema and every schema nested in it, outer ones first; references are not followed. -/
def inlined : SchemaRef → List Schema
  | .ref _ => []
  | .item s => s :: s.subschemas.attach.flatMap fun c => inlined c.1
termination_by r => sizeOf r
decreasing_by
  have := Schema.sizeOf_lt_of_mem_subschemas c.2
  simp only [Referenced.item.sizeOf_spec]
  omega

def sites (location : String) : SchemaRef → List (String × String)
  | .ref path => [(location, path)]
  | .item s => s.children.attach.flatMap fun x =>
    sites (location ++ "/" ++ x.1.1.pointer) x.1.2
termination_by r => sizeOf r
decreasing_by
  have := Schema.sizeOf_lt_of_mem_children x.2
  simp only [Referenced.item.sizeOf_spec]
  omega

theorem inlined_item (s : Schema) :
    inlined (.item s) = s :: s.children.flatMap fun x => x.2.inlined := by
  rw [inlined, List.flatMap_subtype (g := inlined) (fun _ _ => rfl), List.unattach_attach,
    ← Schema.children_snd, List.flatMap_map]

theorem sites_item (location : String) (s : Schema) :
    sites location (.item s) =
      s.children.flatMap fun x => x.2.sites (location ++ "/" ++ x.1.pointer) := by
  rw [sites, List.flatMap_subtype (g := fun x => sites (location ++ "/" ++ x.1.pointer) x.2)
    (fun _ _ => rfl), List.unattach_attach]

end SchemaRef

end TypedClients
