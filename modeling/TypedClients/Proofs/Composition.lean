import TypedClients.Proofs.Conjunctions

namespace TypedClients

namespace TypeExpr

def isAtom : TypeExpr → Bool
  | .array _ | .map _ | .object _ | .union _ | .intersection _ => false
  | _ => true

end TypeExpr

/-- A property of the types of schemas that follows from that of their parts. -/
structure Composes (P : SchemaRef → TypeExpr → Prop) : Prop where
  inside {s : Schema} {c : SchemaRef} {t : TypeExpr} (held : s.Holds c) (h : P c t) : P (.item s) t
  reference (path : String) : P (.ref path) (.ref (refTypeName path))
  atom {r : SchemaRef} {t : TypeExpr} (atom : t.isAtom = true) (plain : t.refs = []) : P r t
  array {r : SchemaRef} {t : TypeExpr} (h : P r t) : P r (.array t)
  map {r : SchemaRef} {t : TypeExpr} (h : P r t) : P r (.map t)
  object {r : SchemaRef} {fields : List (String × TypeExpr × Bool)}
    (h : ∀ f ∈ fields, P r f.2.1) : P r (.object fields)
  union {r : SchemaRef} {ts : List TypeExpr} (filled : ts ≠ []) (h : ∀ t ∈ ts, P r t) :
    P r (.union ts)
  members {r : SchemaRef} {ts : List TypeExpr} (h : P r (.union ts)) : ∀ t ∈ ts, P r t
  intersection {r : SchemaRef} {ts : List TypeExpr} (several : 1 < ts.length)
    (h : ∀ t ∈ ts, P r t) : P r (.intersection ts)

structure SchemaRef.Bears (P : SchemaRef → TypeExpr → Prop) (r : SchemaRef) : Prop where
  type : P r r.typeExpr
  nested : ∀ s, r.Nests s → ∀ f ∈ s.fields, P r f.type

namespace Composes

variable {P : SchemaRef → TypeExpr → Prop} (composes : Composes P)

include composes

theorem ofMembers {r : SchemaRef} {otherwise : TypeExpr} {ts : List TypeExpr}
    (none : P r otherwise) (h : ∀ t ∈ ts, P r t) : P r (TypeExpr.ofMembers otherwise ts) := by
  unfold TypeExpr.ofMembers
  split
  · exact none
  · exact h _ List.mem_cons_self
  · rename_i filled _
    exact composes.union filled h

theorem withNull {r : SchemaRef} {t : TypeExpr} (h : P r t) : P r t.withNull := by
  have null : P r .null := composes.atom rfl rfl
  unfold TypeExpr.withNull
  split
  · exact null
  · exact h
  · rename_i ts
    split
    · exact h
    · refine composes.union (by simp) fun u listed => ?_
      exact (List.mem_append.mp listed).elim (composes.members h u)
        fun last => List.mem_singleton.mp last ▸ null
  · refine composes.union (List.cons_ne_nil _ _) fun u listed => ?_
    rcases List.mem_cons.mp listed with rfl | last
    · exact h
    · exact List.mem_singleton.mp last ▸ null

theorem constType (r : SchemaRef) (v : Json) : P r (constType v) := by
  unfold TypedClients.constType
  split <;> exact composes.atom rfl rfl

theorem stringType (r : SchemaRef) (format : Option String) : P r (stringType format) := by
  unfold TypedClients.stringType
  split <;> exact composes.atom rfl rfl

theorem enumType (r : SchemaRef) {values : List Json} (given : values ≠ []) :
    P r (enumType values) := by
  have constants : ∀ t ∈ TypeExpr.distinct (values.map TypedClients.constType), P r t := by
    intro t listed
    obtain ⟨v, _, rfl⟩ := List.mem_map.mp (TypeExpr.mem_of_distinct listed)
    exact composes.constType r v
  obtain ⟨v, rest, rfl⟩ := List.exists_cons_of_ne_nil given
  have first : TypedClients.constType v ∈ (v :: rest).map TypedClients.constType :=
    List.mem_map_of_mem List.mem_cons_self
  obtain ⟨u, kept, _⟩ := TypeExpr.mem_distinct first
  unfold TypedClients.enumType
  split
  · rename_i single
    exact constants _ (single ▸ List.mem_cons_self)
  · exact composes.union (List.ne_nil_of_mem kept) constants

theorem inlineFields {r : SchemaRef} {fields : List FieldDecl} (h : ∀ f ∈ fields, P r f.type) :
    P r (inlineFields fields) := by
  refine composes.object fun g listed => ?_
  obtain ⟨f, mem, rfl⟩ := List.mem_map.mp listed
  exact h f mem

section

variable {s : Schema} (parts : ∀ c : SchemaRef, s.Holds c → c.Bears P)

include parts

theorem held {c : SchemaRef} (held : s.Holds c) : P (.item s) c.typeExpr :=
  composes.inside held (parts c held).type

theorem fields : ∀ f ∈ s.fields, P (.item s) f.type := by
  intro f listed
  rw [Schema.fields_eq] at listed
  obtain ⟨p, mem, rfl⟩ := List.mem_map.mp listed
  exact composes.held parts (.property mem)

theorem nested {t : Schema} (nests : SchemaRef.Nests (.item s) t) :
    ∀ f ∈ t.fields, P (.item s) f.type := by
  cases nests with
  | self => exact composes.fields parts
  | inside held deeper =>
    exact fun f listed => composes.inside held ((parts _ held).nested t deeper f listed)

theorem flatFields : ∀ f ∈ s.flatFields, P (.item s) f.type := by
  intro f listed
  obtain ⟨c, rfl | joins, mem⟩ := Schema.mem_flatFields listed
  · exact composes.fields parts f mem
  · exact composes.nested parts joins.nests f mem

theorem objectType : P (.item s) s.objectType := by
  rw [Schema.objectType]
  split
  · split
    · rename_i a given
      exact composes.map (composes.held parts (.additional given))
    · exact composes.map (composes.atom rfl rfl)
    · exact composes.object fun f listed => absurd listed List.not_mem_nil
  · exact composes.inlineFields (composes.fields parts)

theorem namedType (t : TypeName) : P (.item s) (s.namedType t) := by
  cases t with
  | string => rw [Schema.namedType]; exact composes.stringType _ _
  | array =>
    rw [Schema.namedType]
    split
    · rename_i i given
      exact composes.array (composes.held parts (.items given))
    · exact composes.array (composes.atom rfl rfl)
  | object => rw [Schema.namedType]; exact composes.objectType parts
  | _ => rw [Schema.namedType]; exact composes.atom rfl rfl

theorem memberType {m : SchemaRef} (listed : m ∈ s.allOf) : P (.item s) (memberType m) := by
  have bears := parts m (.allOf listed)
  apply composes.inside (.allOf listed)
  cases m with
  | ref path =>
    rw [memberType_ref]
    exact composes.reference path
  | item t =>
    rw [memberType_item]
    split
    · exact SchemaRef.typeExpr_item t ▸ bears.type
    · exact composes.inlineFields (bears.nested t (.self t))

theorem conjoins {t : TypeExpr} (h : s.Conjoins t) : P (.item s) t := by
  cases h with
  | single members _ => exact composes.held parts (.allOf (members ▸ List.mem_cons_self))
  | flat _ _ => exact composes.inlineFields (composes.flatFields parts)
  | parts _ _ several =>
    refine composes.intersection several fun t mem => ?_
    rcases List.mem_append.mp mem with part | own
    · obtain ⟨m, listed, rfl⟩ := List.mem_map.mp part
      exact composes.memberType parts listed
    · split at own
      · cases own
      · rw [List.mem_singleton.mp own]
        exact composes.inlineFields (composes.fields parts)

theorem plainType : P (.item s) s.plainType := by
  unfold Schema.plainType
  split
  · exact composes.namedType parts _
  · refine composes.ofMembers (composes.atom rfl rfl) fun t listed => ?_
    rcases List.mem_append.mp listed with part | null
    · obtain ⟨n, _, rfl⟩ := List.mem_map.mp part
      exact composes.namedType parts n
    · split at null
      · exact List.mem_singleton.mp null ▸ composes.atom rfl rfl
      · cases null
  · split
    · exact composes.objectType parts
    · split
      · exact composes.namedType parts _
      · exact composes.atom rfl rfl

theorem alternatives {ms : List SchemaRef} (given : ms ≠ []) (inside : ∀ c ∈ ms, s.Holds c) :
    P (.item s) (.union (ms.map SchemaRef.typeExpr)) := by
  refine composes.union (fun none => given (List.map_eq_nil_iff.mp none)) fun t mem => ?_
  obtain ⟨c, listed, rfl⟩ := List.mem_map.mp mem
  exact composes.held parts (inside c listed)

theorem baseType : P (.item s) s.baseType := by
  have gives := s.baseType_gives
  generalize s.baseType = t at gives ⊢
  cases gives with
  | oneOf given => exact composes.alternatives parts given fun _ listed => .oneOf listed
  | anyOf _ given => exact composes.alternatives parts given fun _ listed => .anyOf listed
  | allOf _ _ _ form => exact composes.conjoins parts form
  | enumeration _ _ _ given => exact composes.enumType _ given
  | constant => exact composes.constType _ _
  | types => exact composes.plainType parts

end

theorem bears (r : SchemaRef) : r.Bears P := by
  induction r using SchemaRef.induction with
  | ref path =>
    refine ⟨?_, nofun⟩
    rw [SchemaRef.typeExpr_ref]
    exact composes.reference path
  | item s parts =>
    refine ⟨?_, fun t nests => composes.nested parts nests⟩
    rw [SchemaRef.typeExpr_item, Schema.typeExpr]
    split
    · exact composes.withNull (composes.baseType parts)
    · exact composes.baseType parts

theorem typeExpr (r : SchemaRef) : P r r.typeExpr := (composes.bears r).type

end Composes

end TypedClients
