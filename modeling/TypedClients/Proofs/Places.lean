import TypedClients.Proofs.DistinctKeys
import TypedClients.Proofs.Pointer
import TypedClients.Proofs.Specifiers

namespace TypedClients

namespace Pointer

def segments (pointer : String) : List String := ((pathParts pointer).drop 1).map unescape

def index? (segment : String) : Option Nat :=
  let n := Nat.ofDigitChars 10 segment.toList 0
  if Decimal.digitText n = segment then some n else none

theorem index?_digitText (n : Nat) : index? (Decimal.digitText n) = some n := by
  have number : Nat.ofDigitChars 10 (Decimal.digitText n).toList 0 = n := by
    rw [Decimal.digitText, String.toList_ofList]
    exact Nat.ofDigitChars_toDigits (by decide) (by decide)
  simp only [index?, number, if_true]

theorem unescape_of_no_tilde {segment : String} (h : '~' ∉ segment.toList) :
    unescape segment = segment := by
  have chars : ∀ cs : List Char, '~' ∉ cs → unescapeChars cs = cs := by
    intro cs clean
    induction cs with
    | nil => rfl
    | cons c rest ih =>
      rw [List.mem_cons, not_or] at clean
      rw [unescapeChars, ih clean.2]
      all_goals
        intro _ same
        exact absurd same.symm clean.1
  rw [unescape, chars _ h, String.ofList_toList]

theorem parts_plain {s : String} (flat : '/' ∉ s.toList) (clean : '~' ∉ s.toList) :
    (pathParts s).map unescape = [s] := by
  rw [pathParts_flat flat, List.map_singleton, unescape_of_no_tilde clean]

theorem parts_escape (segment : String) : (pathParts (escape segment)).map unescape = [segment] := by
  rw [pathParts_flat (slash_not_mem_escape segment), List.map_singleton, unescape_escape]

theorem parts_digitText (n : Nat) :
    (pathParts (Decimal.digitText n)).map unescape = [Decimal.digitText n] := by
  have digits (c : Char) (other : c.isDigit = false) : c ∉ (Decimal.digitText n).toList :=
    fun listed => Text.ne_of_isDigit (Decimal.isDigit_of_mem_digitText listed) other rfl
  exact parts_plain (digits '/' (by decide)) (digits '~' (by decide))

theorem parts_under (keyword : String) {spelled segment : String} (flat : '/' ∉ keyword.toList)
    (clean : '~' ∉ keyword.toList) (h : (pathParts spelled).map unescape = [segment]) :
    (pathParts (keyword ++ "/" ++ spelled)).map unescape = [keyword, segment] := by
  rw [pathParts_slash, List.map_append, parts_plain flat clean, h, List.singleton_append]

end Pointer

namespace Slot

def segments : Slot → List String
  | .property n => ["properties", n]
  | .items => ["items"]
  | .additional => ["additionalProperties"]
  | .allOf i => ["allOf", Decimal.digitText i]
  | .anyOf i => ["anyOf", Decimal.digitText i]
  | .oneOf i => ["oneOf", Decimal.digitText i]
  | .not => ["not"]
  | .ifBranch => ["if"]
  | .thenBranch => ["then"]
  | .elseBranch => ["else"]
  | .dependent n => ["dependentSchemas", n]
  | .pattern n => ["patternProperties", n]
  | .definition n => ["definitions", n]

open Pointer in
theorem pathParts_pointer (slot : Slot) :
    (pathParts slot.pointer).map unescape = slot.segments := by
  cases slot with
  | property n =>
    exact parts_under "properties" (by decide) (by decide) (parts_escape n)
  | items => exact parts_plain (by decide) (by decide)
  | additional => exact parts_plain (by decide) (by decide)
  | allOf i =>
    exact parts_under "allOf" (by decide) (by decide) (parts_digitText i)
  | anyOf i =>
    exact parts_under "anyOf" (by decide) (by decide) (parts_digitText i)
  | oneOf i =>
    exact parts_under "oneOf" (by decide) (by decide) (parts_digitText i)
  | not => exact parts_plain (by decide) (by decide)
  | ifBranch => exact parts_plain (by decide) (by decide)
  | thenBranch => exact parts_plain (by decide) (by decide)
  | elseBranch => exact parts_plain (by decide) (by decide)
  | dependent n =>
    exact parts_under "dependentSchemas" (by decide) (by decide) (parts_escape n)
  | pattern n =>
    exact parts_under "patternProperties" (by decide) (by decide) (parts_escape n)
  | definition n =>
    exact parts_under "definitions" (by decide) (by decide) (parts_escape n)

def plain? (keyword : String) : Option Slot :=
  Keyed.find? keyword [("items", .items), ("additionalProperties", .additional), ("not", .not),
    ("if", .ifBranch), ("then", .thenBranch), ("else", .elseBranch)]

def named? (keyword : String) : Option (String → Slot) :=
  Keyed.find? keyword [("properties", .property), ("dependentSchemas", .dependent),
    ("patternProperties", .pattern), ("definitions", .definition)]

def numbered? (keyword : String) : Option (Nat → Slot) :=
  Keyed.find? keyword [("allOf", .allOf), ("anyOf", .anyOf), ("oneOf", .oneOf)]

def under? (keyword segment : String) : Option Slot :=
  match named? keyword with
  | some slot => some (slot segment)
  | none => (numbered? keyword).bind fun slot => (Pointer.index? segment).map slot

def way? : List String → Option (List Slot)
  | [] => some []
  | keyword :: rest =>
    match plain? keyword with
    | some slot => (way? rest).map (slot :: ·)
    | none =>
      match rest with
      | [] => none
      | segment :: rest => (under? keyword segment).bind fun slot => (way? rest).map (slot :: ·)

theorem way?_segments_append (slot : Slot) (rest : List String) :
    way? (slot.segments ++ rest) = (way? rest).map (slot :: ·) := by
  have plain (keyword : String) (found : plain? keyword = some slot) :
      way? (keyword :: rest) = (way? rest).map (slot :: ·) := by
    rw [way?.eq_def]
    simp only [found]
  have under (keyword segment : String) (other : plain? keyword = none)
      (found : under? keyword segment = some slot) :
      way? (keyword :: segment :: rest) = (way? rest).map (slot :: ·) := by
    rw [way?.eq_def]
    simp only [other, found, Option.bind_some]
  have indexed (keyword : String) (slot : Nat → Slot) (i : Nat)
      (found : ∀ segment, under? keyword segment = (Pointer.index? segment).map slot) :
      under? keyword (Decimal.digitText i) = some (slot i) := by
    rw [found, Pointer.index?_digitText]
    rfl
  cases slot with
  | property n => exact under "properties" n rfl rfl
  | items => exact plain "items" rfl
  | additional => exact plain "additionalProperties" rfl
  | allOf i => exact under "allOf" _ rfl (indexed "allOf" .allOf i fun _ => rfl)
  | anyOf i => exact under "anyOf" _ rfl (indexed "anyOf" .anyOf i fun _ => rfl)
  | oneOf i => exact under "oneOf" _ rfl (indexed "oneOf" .oneOf i fun _ => rfl)
  | not => exact plain "not" rfl
  | ifBranch => exact plain "if" rfl
  | thenBranch => exact plain "then" rfl
  | elseBranch => exact plain "else" rfl
  | dependent n => exact under "dependentSchemas" n rfl rfl
  | pattern n => exact under "patternProperties" n rfl rfl
  | definition n => exact under "definitions" n rfl rfl

end Slot

/-- The pointer to the place that a way leads to. -/
def pointerOf : List Slot → String
  | [] => ""
  | slot :: rest => "/" ++ slot.pointer ++ pointerOf rest

theorem pathParts_append_pointerOf (s : String) (way : List Slot) :
    pathParts (s ++ pointerOf way) =
      pathParts s ++ way.flatMap fun slot => pathParts slot.pointer := by
  induction way generalizing s with
  | nil => simp [pointerOf]
  | cons slot rest ih =>
    have first : s ++ pointerOf (slot :: rest) = s ++ "/" ++ slot.pointer ++ pointerOf rest := by
      simp only [pointerOf, String.append_assoc]
    rw [first, ih, pathParts_slash, List.append_assoc, List.flatMap_cons]

theorem segments_pointerOf (way : List Slot) :
    Pointer.segments (pointerOf way) = way.flatMap Slot.segments := by
  have parts := pathParts_append_pointerOf "" way
  have empty : pathParts "" = [""] := pathParts_flat (by decide)
  rw [String.empty_append, empty] at parts
  rw [Pointer.segments, parts, List.singleton_append, List.drop_one, List.tail_cons,
    List.map_flatMap]
  exact List.flatMap_congr fun slot _ => slot.pathParts_pointer

/-- A pointer is read back as the way that it was written for. -/
theorem way?_pointerOf (way : List Slot) :
    Slot.way? (Pointer.segments (pointerOf way)) = some way := by
  rw [segments_pointerOf]
  induction way with
  | nil => rfl
  | cons slot rest ih => rw [List.flatMap_cons, Slot.way?_segments_append, ih, Option.map_some]

theorem pointerOf_injective : Function.Injective pointerOf := by
  intro way other same
  have left := way?_pointerOf way
  rw [same, way?_pointerOf other] at left
  exact (Option.some.inj left).symm

theorem mem_namedSlots_iff {slot : String → Slot} {table : List (String × SchemaRef)}
    {at_ : Slot} {c : SchemaRef} (distinct : (Keyed.keys table).Nodup) :
    (at_, c) ∈ namedSlots slot table ↔ ∃ n, slot n = at_ ∧ Keyed.find? n table = some c := by
  have stored (n : String) : (n, c) ∈ table ↔ Keyed.find? n table = some c :=
    ⟨Keyed.find?_of_mem distinct, Keyed.mem_of_find?⟩
  simp only [namedSlots, List.mem_map, Prod.exists, Prod.mk.injEq, ← stored]
  constructor
  · rintro ⟨n, _, listed, same, rfl⟩
    exact ⟨n, same, listed⟩
  · rintro ⟨n, same, listed⟩
    exact ⟨n, c, listed, same, rfl⟩

theorem mem_numberedSlots_iff {slot : Nat → Slot} {members : List SchemaRef} {at_ : Slot}
    {c : SchemaRef} :
    (at_, c) ∈ numberedSlots slot members ↔ ∃ i, slot i = at_ ∧ members[i]? = some c := by
  simp only [numberedSlots, List.mem_map, Prod.exists, Prod.mk.injEq,
    List.mk_mem_zipIdx_iff_getElem?]
  constructor
  · rintro ⟨_, i, listed, same, rfl⟩
    exact ⟨i, same, listed⟩
  · rintro ⟨i, same, listed⟩
    exact ⟨c, i, listed, same, rfl⟩

theorem mem_optionalSlot_iff {slot at_ : Slot} {o : Option SchemaRef} {c : SchemaRef} :
    (at_, c) ∈ optionalSlot slot o ↔ slot = at_ ∧ o = some c := by
  cases o with
  | none => simp [optionalSlot]
  | some d => simp [optionalSlot, eq_comm]

namespace Slot

def surface : Slot → Nat
  | .property _ => 0
  | .items => 1
  | .additional => 2
  | .allOf _ => 3
  | .anyOf _ => 4
  | .oneOf _ => 5
  | .not => 6
  | .ifBranch => 7
  | .thenBranch => 8
  | .elseBranch => 9
  | .dependent _ => 10
  | .pattern _ => 11
  | .definition _ => 12

structure Before (k : Nat) (slots : List Slot) : Prop where
  nodup : slots.Nodup
  below : ∀ slot ∈ slots, slot.surface < k

namespace Before

variable {k : Nat} {slots more : List Slot}

theorem append (h : Before k slots) (distinct : more.Nodup)
    (here : ∀ slot ∈ more, slot.surface = k) : Before (k + 1) (slots ++ more) := by
  constructor
  · refine List.nodup_append.mpr ⟨h.nodup, distinct, ?_⟩
    rintro a earlier b later rfl
    exact Nat.lt_irrefl k (here a later ▸ h.below a earlier)
  · intro slot mem
    rcases List.mem_append.mp mem with earlier | later
    · exact Nat.lt_succ_of_lt (h.below slot earlier)
    · exact Nat.lt_succ_of_le (here slot later).le

theorem named (h : Before k slots) (slot : String → Slot) (injective : Function.Injective slot)
    (here : ∀ n, (slot n).surface = k) {table : List (String × SchemaRef)}
    (distinct : (Keyed.keys table).Nodup) :
    Before (k + 1) (slots ++ (namedSlots slot table).map Prod.fst) := by
  have names : (namedSlots slot table).map Prod.fst = (Keyed.keys table).map slot := by
    rw [namedSlots, Keyed.keys, List.map_map, List.map_map]
    rfl
  rw [names]
  refine h.append (distinct.map injective) fun a mem => ?_
  obtain ⟨n, _, rfl⟩ := List.mem_map.mp mem
  exact here n

theorem numbered (h : Before k slots) (slot : Nat → Slot) (injective : Function.Injective slot)
    (here : ∀ i, (slot i).surface = k) (members : List SchemaRef) :
    Before (k + 1) (slots ++ (numberedSlots slot members).map Prod.fst) := by
  have indices : (numberedSlots slot members).map Prod.fst =
      (List.range members.length).map slot := by
    rw [List.range_eq_range', ← List.zipIdx_map_snd 0 members, List.map_map, numberedSlots,
      List.map_map]
    rfl
  rw [indices]
  refine h.append (List.nodup_range.map injective) fun a mem => ?_
  obtain ⟨i, _, rfl⟩ := List.mem_map.mp mem
  exact here i

theorem optional (h : Before k slots) (slot : Slot) (here : slot.surface = k)
    (o : Option SchemaRef) : Before (k + 1) (slots ++ (optionalSlot slot o).map Prod.fst) := by
  cases o with
  | none => exact h.append .nil fun _ none => (List.not_mem_nil none).elim
  | some c =>
    refine h.append (List.nodup_singleton slot) fun a mem => ?_
    rw [List.mem_singleton.mp mem]
    exact here

end Before

end Slot

namespace Schema

def child? (s : Schema) : Slot → Option SchemaRef
  | .property n => Keyed.find? n s.properties
  | .items => s.items
  | .additional => s.additional?
  | .allOf i => s.allOf[i]?
  | .anyOf i => s.anyOf[i]?
  | .oneOf i => s.oneOf[i]?
  | .not => s.notSchema
  | .ifBranch => s.ifSchema
  | .thenBranch => s.thenSchema
  | .elseBranch => s.elseSchema
  | .dependent n => Keyed.find? n s.dependentSchemas
  | .pattern n => Keyed.find? n s.patternProperties
  | .definition n => Keyed.find? n s.definitions

variable {s : Schema} {slot : Slot} {c : SchemaRef}

theorem mem_children_iff (distinct : s.DistinctKeys) :
    (slot, c) ∈ s.children ↔ s.child? slot = some c := by
  simp only [children, List.mem_append, mem_namedSlots_iff distinct.properties,
    mem_namedSlots_iff distinct.dependentSchemas, mem_namedSlots_iff distinct.patternProperties,
    mem_namedSlots_iff distinct.definitions, mem_numberedSlots_iff, mem_optionalSlot_iff]
  cases slot <;> simp [child?]

/-- No slot is walked twice. -/
theorem nodup_slots (distinct : s.DistinctKeys) : (s.children.map Prod.fst).Nodup := by
  -- The surfaces come one after the other, so slots of different surfaces are never the same.
  have start : Slot.Before 0 [] := ⟨.nil, fun _ none => (List.not_mem_nil none).elim⟩
  have walked := start
    |>.named .property (fun _ _ => Slot.property.inj) (fun _ => rfl) distinct.properties
    |>.optional .items rfl s.items
    |>.optional .additional rfl s.additional?
    |>.numbered .allOf (fun _ _ => Slot.allOf.inj) (fun _ => rfl) s.allOf
    |>.numbered .anyOf (fun _ _ => Slot.anyOf.inj) (fun _ => rfl) s.anyOf
    |>.numbered .oneOf (fun _ _ => Slot.oneOf.inj) (fun _ => rfl) s.oneOf
    |>.optional .not rfl s.notSchema
    |>.optional .ifBranch rfl s.ifSchema
    |>.optional .thenBranch rfl s.thenSchema
    |>.optional .elseBranch rfl s.elseSchema
    |>.named .dependent (fun _ _ => Slot.dependent.inj) (fun _ => rfl)
      distinct.dependentSchemas
    |>.named .pattern (fun _ _ => Slot.pattern.inj) (fun _ => rfl)
      distinct.patternProperties
    |>.named .definition (fun _ _ => Slot.definition.inj) (fun _ => rfl)
      distinct.definitions
  simpa only [children, List.map_append, List.nil_append] using walked.nodup

end Schema

namespace SchemaRef

/-- What stands at the end of a way into a schema. -/
def follow : List Slot → SchemaRef → Option SchemaRef
  | [], r => some r
  | slot :: rest, .item s => (s.child? slot).bind (follow rest)
  | _ :: _, .ref _ => none

/-- The way into the schema that a pointer spells, and what stands at its end. -/
def lookup? (r : SchemaRef) (pointer : String) : Option (List Slot × SchemaRef) := do
  let way ← Slot.way? (Pointer.segments pointer)
  let found ← r.follow way
  return (way, found)

/-- Every reference in a schema and the way to it, in walk order. -/
def references : SchemaRef → List (List Slot × String)
  | .ref path => [([], path)]
  | .item s => s.children.attach.flatMap fun x =>
    (references x.1.2).map fun site => (x.1.1 :: site.1, site.2)
termination_by r => sizeOf r
decreasing_by
  have := Schema.sizeOf_lt_of_mem_children x.2
  simp only [Referenced.item.sizeOf_spec]
  omega

theorem references_item (s : Schema) : references (.item s) = s.children.flatMap fun x =>
    x.2.references.map fun site => (x.1 :: site.1, site.2) := by
  rw [references, List.flatMap_subtype
    (g := fun x => (references x.2).map fun site => (x.1 :: site.1, site.2)) (fun _ _ => rfl),
    List.unattach_attach]

variable {r : SchemaRef} {way : List Slot} {path : String}

theorem sites_eq (r : SchemaRef) (location : String) :
    r.sites location = r.references.map fun site => (location ++ pointerOf site.1, site.2) := by
  induction r using SchemaRef.induction generalizing location with
  | ref path =>
    rw [sites, references]
    simp [pointerOf]
  | item s ih =>
    rw [sites_item, references_item, List.map_flatMap]
    apply List.flatMap_congr
    intro x child
    rw [ih x.2 (Schema.holds_iff_child.mpr ⟨x.1, child⟩), List.map_map]
    apply List.map_congr_left
    intro site _
    simp only [pointerOf, Function.comp_apply, String.append_assoc]

theorem mem_references (distinct : r.Distinct) :
    (way, path) ∈ r.references ↔ r.follow way = some (.ref path) := by
  induction r using SchemaRef.induction generalizing way with
  | ref p =>
    rw [references, List.mem_singleton, Prod.mk.injEq]
    cases way with
    | nil => simp [follow, eq_comm]
    | cons slot rest => simp [follow]
  | item s ih =>
    rw [references_item, List.mem_flatMap]
    cases way with
    | nil => simp [follow]
    | cons slot rest =>
      rw [follow, Option.bind_eq_some_iff]
      constructor
      · intro given
        obtain ⟨⟨at_, c⟩, child, listed⟩ := given
        obtain ⟨⟨inner, p⟩, site, same⟩ := List.mem_map.mp listed
        cases same
        have held := Schema.holds_iff_child.mpr ⟨_, child⟩
        have stands := (Schema.mem_children_iff distinct.keys).mp child
        have inside := (ih c held (distinct.inside held)).mp site
        exact ⟨c, stands, inside⟩
      · intro given
        obtain ⟨c, stands, inner⟩ := given
        have child := (Schema.mem_children_iff distinct.keys).mpr stands
        have held := Schema.holds_iff_child.mpr ⟨_, child⟩
        have site := (ih c held (distinct.inside held)).mpr inner
        exact ⟨(slot, c), child, List.mem_map.mpr ⟨(rest, path), site, rfl⟩⟩

theorem lookup?_pointerOf (stands : r.follow way = some (.ref path)) :
    r.lookup? (pointerOf way) = some (way, .ref path) := by
  unfold lookup?
  rw [way?_pointerOf]
  show (r.follow way).bind _ = _
  rw [stands]
  rfl

theorem nodup_references (distinct : r.Distinct) : (r.references.map Prod.fst).Nodup := by
  induction r using SchemaRef.induction with
  | ref p => simp [references]
  | item s ih =>
    rw [references_item, List.map_flatMap, List.nodup_flatMap]
    constructor
    · intro x child
      have held := Schema.holds_iff_child.mpr ⟨x.1, child⟩
      have inner := ih x.2 held (distinct.inside held)
      have ways : (x.2.references.map fun site => (x.1 :: site.1, site.2)).map Prod.fst =
          (x.2.references.map Prod.fst).map (x.1 :: ·) := by
        simp only [List.map_map, Function.comp_def]
      rw [ways]
      exact inner.map (List.cons_injective)
    · have slots := Schema.nodup_slots distinct.keys
      rw [List.Nodup, List.pairwise_map] at slots
      refine slots.imp fun different => ?_
      intro way left right
      simp only [List.map_map, List.mem_map, Function.comp_apply] at left right
      obtain ⟨_, _, rfl⟩ := left
      obtain ⟨_, _, same⟩ := right
      exact different (List.cons.inj same).1.symm

end SchemaRef

end TypedClients
