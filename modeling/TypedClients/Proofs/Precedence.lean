import TypedClients.Proofs.TypeWeights

namespace TypedClients.TypeScript

namespace TypeTree

variable {ts us : List TypeTree}

theorem Same.members (all : List.Forall₂ Same ts us) :
    ∀ before, Same (.union (before ++ ts)) (.union (before ++ us)) := by
  induction all with
  | nil => exact fun _ => .refl _
  | @cons t u ts us first _ ih =>
    intro before
    have later := ih (before ++ [u])
    rw [List.append_assoc, List.append_assoc] at later
    exact (Same.member first before ts).trans later

theorem Same.parts (all : List.Forall₂ Same ts us) :
    ∀ before, Same (.intersection (before ++ ts)) (.intersection (before ++ us)) := by
  induction all with
  | nil => exact fun _ => .refl _
  | @cons t u ts us first _ ih =>
    intro before
    have later := ih (before ++ [u])
    rw [List.append_assoc, List.append_assoc] at later
    exact (Same.part first before ts).trans later

end TypeTree

namespace Terms

variable {r s : Terms} {t : TypeTree} {ts : List TypeTree}

theorem close_same (single : r.done = []) :
    r.close.Same (.intersection (r.factors ++ [r.last])) := by
  rw [close, single]
  exact .singleUnion _

theorem close_same_last (single : r.done = []) (alone : r.factors = []) : r.close.Same r.last := by
  have same := close_same single
  rw [alone] at same
  exact same.trans (.singleIntersection _)

theorem grouped_same (same : r.close.Same t) (compound : Bool) :
    (r.grouped compound).close.Same t := by
  cases compound with
  | false => exact same
  | true => exact (close_same_last rfl rfl).trans same

theorem inArray_same (same : r.close.Same t) (single : r.done = []) (alone : r.factors = []) :
    r.inArray.close.Same (.array t) := by
  have whole : r.inArray.close.Same (.array r.last) := close_same_last single alone
  exact whole.trans (.array ((close_same_last single alone).symm.trans same))

theorem either_same (first : r.close.Same t) (rest : s.close.Same (.union ts)) :
    (r.either s).close.Same (.union (t :: ts)) := by
  have flat : (TypeTree.union [r.close, s.close]).Same (r.either s).close := by
    have front := TypeTree.Same.nestedUnion [] (r.alternatives.map .intersection) [s.close]
    have back := TypeTree.Same.nestedUnion (r.alternatives.map .intersection)
      (s.alternatives.map .intersection) []
    rw [close_eq (r.either s), either_alternatives, List.map_append]
    rw [List.append_nil] at back
    rw [← close_eq] at front back
    exact front.trans back
  have members := TypeTree.Same.members (.cons first (.cons rest .nil)) []
  have nested := TypeTree.Same.nestedUnion [t] ts []
  rw [List.append_nil] at nested
  exact (flat.symm.trans members).trans nested

theorem either_done (r s : Terms) : (r.either s).done ≠ [] := by
  obtain ⟨done, factors, last⟩ := s
  cases done <;> simp [either, behind]

theorem both_done (single : r.done = []) (single' : s.done = []) : (r.both s).done = [] := by
  simp [both, behind, single, single']

theorem both_compound (r s : Terms) : (r.both s).done ≠ [] ∨ (r.both s).factors ≠ [] := by
  obtain ⟨done, factors, last⟩ := s
  cases done <;> simp [both, behind]

theorem both_same (first : r.close.Same t) (rest : s.close.Same (.intersection ts))
    (single : r.done = []) (single' : s.done = []) :
    (r.both s).close.Same (.intersection (t :: ts)) := by
  have front := TypeTree.Same.nestedIntersection [] (r.factors ++ [r.last])
    [.intersection (s.factors ++ [s.last])]
  have back := TypeTree.Same.nestedIntersection (r.factors ++ [r.last]) (s.factors ++ [s.last]) []
  have flat : (r.both s).close.Same
      (.intersection (r.factors ++ [r.last] ++ (s.factors ++ [s.last]))) := by
    have same := close_same (both_done single single')
    simpa [both, behind, single'] using same
  have parts := TypeTree.Same.parts (.cons ((close_same single).symm.trans first)
    (.cons ((close_same single').symm.trans rest) .nil)) []
  have nested := TypeTree.Same.nestedIntersection [t] ts []
  rw [List.append_nil] at nested back
  exact (flat.trans ((front.trans back).symm.trans parts)).trans nested

end Terms

end TypedClients.TypeScript

namespace TypedClients.TypeExpr

open TypeScript (TypeTree Terms)

/-- The type behind unions of one member, which are written as that member. -/
def bared : TypeExpr → TypeExpr
  | .union [t] => bared t
  | t => t

def isSplit : TypeExpr → Bool
  | .union ts => 1 < ts.length
  | _ => false

/-- The text is that of a union or an intersection, and gets no brackets. -/
def Hides (t : TypeExpr) : Prop := t.isCompound = false ∧ t.bared.isCompound = true

def HidesUnion (t : TypeExpr) : Prop := t.isCompound = false ∧ t.bared.isSplit = true

/-- What stands before a mark that binds tighter has brackets if it needs them. -/
def KeepsParts : TypeExpr → Prop
  | .array t => ¬t.Hides
  | .intersection ts => ∀ t ∈ ts, ¬t.HidesUnion
  | _ => True

theorem bared_terms (t : TypeExpr) : t.bared.terms = t.terms := by
  fun_induction bared t with
  | case1 t ih => rw [ih, terms, termsOfList, termsOfList, Terms.eitherAll]
  | case2 t _ => rfl

theorem split_terms {t : TypeExpr} (split : t.isSplit = true) : t.terms.done ≠ [] := by
  unfold isSplit at split
  split at split
  · rename_i ts
    obtain _ | ⟨t, _ | ⟨u, rest⟩⟩ := ts
    · cases split
    · cases split
    · rw [terms, termsOfList, termsOfList, Terms.eitherAll]
      exact Terms.either_done _ _
  · cases split

theorem compound_terms {t : TypeExpr} (compound : t.isCompound = true) :
    t.terms.done ≠ [] ∨ t.terms.factors ≠ [] := by
  unfold isCompound at compound
  split at compound
  · exact .inl (split_terms compound)
  · rename_i ts
    obtain _ | ⟨t, _ | ⟨u, rest⟩⟩ := ts
    · cases compound
    · cases compound
    · rw [terms, termsOfGrouped, termsOfGrouped, Terms.bothAll]
      exact Terms.both_compound _ _
  · cases compound

mutual

theorem weighs : (t : TypeExpr) → t.Everywhere IsLegible →
    Terms.Weighs t.tree t.terms (t.Everywhere KeepsParts)
  | .string, _ | .dateTime, _ | .number, _ | .integer, _ | .boolean, _ | .null, _ | .binary, _
  | .any, _ | .void, _ | .ref _, _ => by
    rw [tree, terms]
    exact (Terms.Weighs.name _).imp fun _ => .atom rfl trivial
  | .literal s, _ => by
    rw [tree, terms]
    exact (Terms.Weighs.literal s).imp fun _ => .atom rfl trivial
  | .array t, legible => by
    rw [tree, terms]
    refine ((weighs t legible.item).grouped t.isCompound).inArray.imp ?_
    rintro ⟨kept, done, factors⟩
    refine .array (fun ⟨plain, hidden⟩ => ?_) kept
    -- without brackets only the last of several terms would be the item
    have compound := compound_terms hidden
    rw [bared_terms] at compound
    rw [plain] at done factors
    exact compound.elim (· done) (· factors)
  | .map t, legible => by
    rw [tree, terms]
    exact (weighs t legible.value).inRecord.imp (.map trivial)
  | .object [], _ => by
    rw [tree, terms]
    exact (Terms.Weighs.name _).inRecord.imp fun _ => .object trivial nofun
  | .object (f :: fields), legible => by
    rw [tree, terms]
    · exact (weighs_fields (f :: fields) legible.field).imp (.object trivial)
    · exact List.cons_ne_nil _ _
    · exact List.cons_ne_nil _ _
  | .union ts, legible => by
    rw [tree, terms]
    exact (weighs_members ts legible.self legible.member).imp (.union trivial)
  | .intersection ts, legible => by
    have several : 1 < ts.length := legible.self
    rw [tree, terms]
    refine (weighs_parts ts several legible.part).imp ?_
    rintro ⟨kept, done⟩
    refine .intersection (fun t listed ⟨plain, hidden⟩ => ?_) kept
    -- without brackets only one of several alternatives would be in the intersection
    have split := split_terms hidden
    rw [bared_terms] at split
    have none := done t listed
    rw [plain] at none
    exact split none

theorem weighs_members : (ts : List TypeExpr) → ts ≠ [] → (∀ t ∈ ts, t.Everywhere IsLegible) →
    Terms.Weighs (.union (treesOfList ts)) (.eitherAll (termsOfList ts))
      (∀ t ∈ ts, t.Everywhere KeepsParts)
  | [], some_member, _ => absurd rfl some_member
  | [t], _, legible => by
    rw [treesOfList, treesOfList, termsOfList, termsOfList, Terms.eitherAll]
    exact (weighs t (legible t List.mem_cons_self)).member.imp fun kept => by simpa using kept
  | t :: u :: rest, _, legible => by
    have first := weighs t (legible t List.mem_cons_self)
    have later := weighs_members (u :: rest) (List.cons_ne_nil _ _)
      fun v listed => legible v (List.mem_cons_of_mem _ listed)
    rw [treesOfList, termsOfList]
    exact (first.either later).imp fun ⟨here, there⟩ => List.forall_mem_cons.mpr ⟨here, there⟩

theorem weighs_parts : (ts : List TypeExpr) → 1 < ts.length → (∀ t ∈ ts, t.Everywhere IsLegible) →
    Terms.Weighs (.intersection (treesOfList ts)) (.bothAll (termsOfGrouped ts))
      ((∀ t ∈ ts, t.Everywhere KeepsParts) ∧ ∀ t ∈ ts, (t.terms.grouped t.isCompound).done = [])
  | [], several, _ | [_], several, _ => absurd several (by simp)
  | t :: u :: rest, _, legible => by
    have first := (weighs t (legible t List.mem_cons_self)).grouped t.isCompound
    have second := weighs u (legible u (by simp))
    cases rest with
    | nil =>
      simp only [treesOfList, termsOfGrouped, Terms.bothAll]
      refine (first.both (second.grouped u.isCompound).part).imp ?_
      rintro ⟨here, there, single, single'⟩
      exact ⟨by simp [here, there], by simp [single, single']⟩
    | cons v rest =>
      have later := weighs_parts (u :: v :: rest) (by simp)
        fun v listed => legible v (List.mem_cons_of_mem _ listed)
      rw [treesOfList, termsOfGrouped]
      refine (first.both later).imp fun ⟨here, ⟨there, singles⟩, single, _⟩ => ?_
      exact ⟨List.forall_mem_cons.mpr ⟨here, there⟩, List.forall_mem_cons.mpr ⟨single, singles⟩⟩

theorem weighs_fields : (fields : List (String × TypeExpr × Bool)) →
    (∀ f ∈ fields, f.2.1.Everywhere IsLegible) →
    Terms.Weighs (.object (treesOfFields fields)) (.single (.object (termsOfFields fields)))
      (∀ f ∈ fields, f.2.1.Everywhere KeepsParts)
  | [], _ => Terms.Weighs.noFields.imp nofun
  | (name, t, required) :: rest, legible => by
    have first := weighs t (legible _ List.mem_cons_self)
    have later := weighs_fields rest fun f listed => legible f (List.mem_cons_of_mem _ listed)
    rw [treesOfFields, termsOfFields]
    exact (first.field later name required).imp fun ⟨here, there⟩ =>
      List.forall_mem_cons.mpr ⟨here, there⟩

end

theorem bothAll_done {rs : List Terms} (singles : ∀ r ∈ rs, r.done = []) :
    (Terms.bothAll rs).done = [] := by
  fun_induction Terms.bothAll rs with
  | case1 => rfl
  | case2 r => exact singles r List.mem_cons_self
  | case3 r s rest ih =>
    exact Terms.both_done (singles r List.mem_cons_self)
      (ih fun u listed => singles u (List.mem_cons_of_mem _ listed))

theorem mem_termsOfGrouped {ts : List TypeExpr} {r : Terms} (h : r ∈ termsOfGrouped ts) :
    ∃ t ∈ ts, r = t.terms.grouped t.isCompound := by
  induction ts with
  | nil => cases h
  | cons t rest ih =>
    rw [termsOfGrouped] at h
    rcases List.mem_cons.mp h with same | later
    · exact ⟨t, List.mem_cons_self, same⟩
    · obtain ⟨u, listed, same⟩ := ih later
      exact ⟨u, List.mem_cons_of_mem _ listed, same⟩

structure Single (t : TypeExpr) : Prop where
  alternative : t.bared.isSplit = false → t.terms.done = []
  factor : t.bared.isCompound = false → t.terms.done = [] ∧ t.terms.factors = []

theorem Single.of_single {t : TypeExpr} (u : TypeTree) (same : t.terms = .single u) : t.Single :=
  ⟨fun _ => by rw [same]; rfl, fun _ => by rw [same]; exact ⟨rfl, rfl⟩⟩

theorem Single.grouped_factor {t : TypeExpr} (h : t.Single) (shown : ¬t.Hides) :
    (t.terms.grouped t.isCompound).done = [] ∧ (t.terms.grouped t.isCompound).factors = [] := by
  cases compound : t.isCompound with
  | true => exact ⟨rfl, rfl⟩
  | false => exact h.factor (by simpa [Hides, compound] using shown)

theorem Single.grouped_alternative {t : TypeExpr} (h : t.Single) (shown : ¬t.HidesUnion) :
    (t.terms.grouped t.isCompound).done = [] := by
  cases compound : t.isCompound with
  | true => rfl
  | false => exact h.alternative (by simpa [HidesUnion, compound] using shown)

theorem single_of_keeps : (t : TypeExpr) → t.Everywhere IsLegible → t.Everywhere KeepsParts →
    t.Single
  | .string, _, _ | .dateTime, _, _ | .number, _, _ | .integer, _, _ | .boolean, _, _
  | .null, _, _ | .binary, _, _ | .any, _, _ | .void, _, _ | .ref _, _, _ => by
    apply Single.of_single (.name _)
    rw [terms]
  | .literal s, _, _ => by
    apply Single.of_single (.literal s)
    rw [terms]
  | .map t, _, _ => by
    apply Single.of_single (.record t.terms.close)
    rw [terms]
  | .object [], _, _ => by
    apply Single.of_single
    rw [terms]
  | .object (f :: fields), _, _ => by
    apply Single.of_single
    rw [terms]
    exact List.cons_ne_nil _ _
  | .array t, legible, kept => by
    have item := single_of_keeps t legible.item kept.item
    have alone := item.grouped_factor kept.self
    constructor <;> intro _ <;> rw [terms]
    · exact alone.1
    · exact alone
  | .union [], legible, _ => absurd rfl legible.self
  | .union [t], legible, kept => by
    have same : (TypeExpr.union [t]).terms = t.terms := (bared_terms _).symm.trans (bared_terms t)
    have member := single_of_keeps t (legible.member t List.mem_cons_self)
      (kept.member t List.mem_cons_self)
    constructor
    · rw [same]
      exact member.alternative
    · rw [same]
      exact member.factor
  | .union (_ :: _ :: _), _, _ => ⟨nofun, nofun⟩
  | .intersection ts, legible, kept => by
    have several : 1 < ts.length := legible.self
    constructor
    · intro _
      rw [terms]
      apply bothAll_done
      intro r listed
      obtain ⟨t, mem, rfl⟩ := mem_termsOfGrouped listed
      have part := single_of_keeps t (legible.part t mem) (kept.part t mem)
      have shown : ∀ t ∈ ts, ¬t.HidesUnion := kept.self
      exact part.grouped_alternative (shown t mem)
    · intro plain
      simp [bared, isCompound, several] at plain

mutual

theorem terms_same : (t : TypeExpr) → t.Everywhere IsLegible → t.Everywhere KeepsParts →
    t.terms.close.Same t.tree
  | .string, _, _ | .dateTime, _, _ | .number, _, _ | .integer, _, _ | .boolean, _, _
  | .null, _, _ | .binary, _, _ | .any, _, _ | .void, _, _ | .ref _, _, _ | .literal _, _, _ => by
    rw [tree, terms]
    exact Terms.close_same_last rfl rfl
  | .array t, legible, kept => by
    have item := terms_same t legible.item kept.item
    have alone := (single_of_keeps t legible.item kept.item).grouped_factor kept.self
    rw [tree, terms]
    exact Terms.inArray_same (Terms.grouped_same item t.isCompound) alone.1 alone.2
  | .map t, legible, kept => by
    rw [tree, terms]
    exact (Terms.close_same_last rfl rfl).trans (.record (terms_same t legible.value kept.value))
  | .object [], _, _ => by
    rw [tree, terms]
    exact (Terms.close_same_last rfl rfl).trans (.record (Terms.close_same_last rfl rfl))
  | .object (f :: fields), legible, kept => by
    rw [tree, terms]
    · exact (Terms.close_same_last rfl rfl).trans
        (terms_same_fields (f :: fields) legible.field kept.field [])
    · exact List.cons_ne_nil _ _
    · exact List.cons_ne_nil _ _
  | .union ts, legible, kept => by
    rw [tree, terms]
    exact terms_same_members ts legible.self legible.member kept.member
  | .intersection ts, legible, kept => by
    have several : 1 < ts.length := legible.self
    have shown : ∀ t ∈ ts, ¬t.HidesUnion := kept.self
    rw [tree, terms]
    exact terms_same_parts ts (List.ne_nil_of_length_pos (by omega)) legible.part kept.part shown

theorem terms_same_members : (ts : List TypeExpr) → ts ≠ [] →
    (∀ t ∈ ts, t.Everywhere IsLegible) → (∀ t ∈ ts, t.Everywhere KeepsParts) →
    (Terms.eitherAll (termsOfList ts)).close.Same (.union (treesOfList ts))
  | [], some_member, _, _ => absurd rfl some_member
  | [t], _, legible, kept => by
    simp only [treesOfList, termsOfList, Terms.eitherAll]
    exact (terms_same t (legible t List.mem_cons_self) (kept t List.mem_cons_self)).trans
      (.symm (.singleUnion _))
  | t :: u :: rest, _, legible, kept => by
    have first := terms_same t (legible t List.mem_cons_self) (kept t List.mem_cons_self)
    have later := terms_same_members (u :: rest) (List.cons_ne_nil _ _)
      (fun v listed => legible v (List.mem_cons_of_mem _ listed))
      fun v listed => kept v (List.mem_cons_of_mem _ listed)
    rw [treesOfList, termsOfList]
    exact Terms.either_same first later

theorem terms_same_parts : (ts : List TypeExpr) → ts ≠ [] →
    (∀ t ∈ ts, t.Everywhere IsLegible) → (∀ t ∈ ts, t.Everywhere KeepsParts) →
    (∀ t ∈ ts, ¬t.HidesUnion) →
    (Terms.bothAll (termsOfGrouped ts)).close.Same (.intersection (treesOfList ts))
  | [], some_part, _, _, _ => absurd rfl some_part
  | [t], _, legible, kept, _ => by
    have part := terms_same t (legible t List.mem_cons_self) (kept t List.mem_cons_self)
    simp only [treesOfList, termsOfGrouped, Terms.bothAll]
    exact (Terms.grouped_same part t.isCompound).trans (.symm (.singleIntersection _))
  | t :: u :: rest, _, legible, kept, shown => by
    have first := terms_same t (legible t List.mem_cons_self) (kept t List.mem_cons_self)
    have later := terms_same_parts (u :: rest) (List.cons_ne_nil _ _)
      (fun v listed => legible v (List.mem_cons_of_mem _ listed))
      (fun v listed => kept v (List.mem_cons_of_mem _ listed))
      fun v listed => shown v (List.mem_cons_of_mem _ listed)
    have singles : ∀ v ∈ t :: u :: rest, (v.terms.grouped v.isCompound).done = [] :=
      fun v listed => (single_of_keeps v (legible v listed) (kept v listed)).grouped_alternative
        (shown v listed)
    have behind : ∀ r ∈ termsOfGrouped (u :: rest), r.done = [] := by
      intro r listed
      obtain ⟨v, mem, rfl⟩ := mem_termsOfGrouped listed
      exact singles v (List.mem_cons_of_mem _ mem)
    rw [treesOfList, termsOfGrouped]
    exact Terms.both_same (Terms.grouped_same first t.isCompound) later
      (singles t List.mem_cons_self) (bothAll_done behind)

theorem terms_same_fields : (fields : List (String × TypeExpr × Bool)) →
    (∀ f ∈ fields, f.2.1.Everywhere IsLegible) → (∀ f ∈ fields, f.2.1.Everywhere KeepsParts) →
    ∀ before, (TypeTree.object (before ++ termsOfFields fields)).Same
      (.object (before ++ treesOfFields fields))
  | [], _, _, _ => .refl _
  | (name, t, required) :: rest, legible, kept, before => by
    have first := terms_same t (legible _ List.mem_cons_self) (kept _ List.mem_cons_self)
    have later := terms_same_fields rest
      (fun f listed => legible f (List.mem_cons_of_mem _ listed))
      (fun f listed => kept f (List.mem_cons_of_mem _ listed))
      (before ++ [(name, t.tree, required)])
    rw [List.append_assoc, List.append_assoc] at later
    rw [treesOfFields, termsOfFields]
    exact (TypeTree.Same.field first before _ name required).trans later

end

/-- What the text of a type is read as is this type exactly if the type keeps its parts. -/
theorem close_same_iff {t : TypeExpr} (legible : t.Everywhere IsLegible) :
    t.terms.close.Same t.tree ↔ t.Everywhere KeepsParts :=
  ⟨fun same => (weighs t legible).kept same.weight_eq, terms_same t legible⟩

def IsFormed : TypeExpr → Prop
  | .ref name => TypeScript.IsWord name
  | .union ts => ts ≠ []
  | .intersection ts => 1 < ts.length
  | _ => True

def HasLegibleKeys : TypeExpr → Prop
  | .object fields => ∀ f ∈ fields, TypeScript.IsLegibleKey f.1
  | _ => True

theorem IsLegible.of_formed {t : TypeExpr} (formed : t.IsFormed) (keys : t.HasLegibleKeys) :
    t.IsLegible := by
  cases t with
  | ref _ | union _ | intersection _ => exact formed
  | object _ => exact keys
  | _ => trivial

theorem IsFormed.of_atom {t : TypeExpr} (atom : t.isAtom = true) (plain : t.refs = []) :
    t.IsFormed := by
  cases t with
  | ref _ => cases plain
  | union _ | intersection _ => cases atom
  | _ => trivial

end TypedClients.TypeExpr

namespace TypedClients

open TypeScript (readType)
open TypeExpr (HasLegibleKeys IsFormed KeepsParts)

theorem formed_composes : Composes fun _ t => t.Everywhere IsFormed where
  inside _ h := h
  reference path := .atom rfl (TypeScript.refTypeName_isWord path)
  atom atom plain := .atom atom (.of_atom atom plain)
  array h := .array trivial h
  map h := .map trivial h
  object h := .object trivial h
  union filled h := .union filled h
  members h := h.member
  intersection several h := .intersection several h

/-- The text of a schema's type is read as a type. It is the same type exactly if no item of an
array and no part of an intersection hides a type that needs brackets behind unions of one member.
-/
theorem SchemaRef.typeExpr_read (r : SchemaRef) (keys : r.typeExpr.Everywhere HasLegibleKeys) :
    ∃ u, readType r.typeExpr.write = some u ∧
      (u.Same r.typeExpr.tree ↔ r.typeExpr.Everywhere KeepsParts) := by
  have legible : r.typeExpr.Everywhere TypeExpr.IsLegible :=
    ((formed_composes.typeExpr r).and keys).imp fun _ both => .of_formed both.1 both.2
  exact ⟨_, TypeExpr.readType_write legible, TypeExpr.close_same_iff legible⟩

def SchemaRef.listing : SchemaRef := .item {
  type := some (.single .array)
  items := some (.item { oneOf := [
    .item { oneOf := [
      .item { type := some (.single .string) },
      .item { type := some (.single .integer) }] }] }) }

theorem SchemaRef.listing_typeExpr :
    listing.typeExpr = .array (.union [.union [.string, .integer]]) := by
  simp [listing, typeExpr_item, Schema.typeExpr, Schema.baseType, Schema.namedType, stringType]

theorem SchemaRef.typeExpr_read_listing : listing.typeExpr.write = "string | number[]" ∧
    listing.typeExpr.Everywhere HasLegibleKeys ∧
    ∃ u, readType "string | number[]" = some u ∧ ¬u.Same listing.typeExpr.tree := by
  have text : listing.typeExpr.write = "string | number[]" := by
    rw [listing_typeExpr]
    decide
  have keys : listing.typeExpr.Everywhere HasLegibleKeys := by
    rw [listing_typeExpr]
    refine .array trivial (.union trivial fun t listed => ?_)
    rw [List.mem_singleton.mp listed]
    refine .union trivial fun t listed => ?_
    rcases List.mem_cons.mp listed with rfl | listed
    · exact .atom rfl trivial
    · exact List.mem_singleton.mp listed ▸ .atom rfl trivial
  have hidden : ¬listing.typeExpr.Everywhere KeepsParts := by
    rw [listing_typeExpr]
    exact fun kept => kept.self ⟨rfl, rfl⟩
  obtain ⟨u, read, same⟩ := typeExpr_read listing keys
  exact ⟨text, keys, u, text ▸ read, fun h => hidden (same.mp h)⟩

end TypedClients
