import TypedClients.Proofs.Success
import TypedClients.Proofs.Translation

namespace TypedClients

/-- The type is null or anything, or a union with a member that admits null. -/
inductive TypeExpr.AdmitsNull : TypeExpr → Prop where
  | null : AdmitsNull .null
  | any : AdmitsNull .any
  | union {t : TypeExpr} {ts : List TypeExpr} (listed : t ∈ ts) (h : AdmitsNull t) :
      AdmitsNull (.union ts)

def ModelBody.AdmitsNull : ModelBody → Prop
  | .object _ _ => False
  | .enumeration _ nullable => nullable = true
  | .union variants _ => ∃ t ∈ variants, t.AdmitsNull
  | .alias t => t.AdmitsNull

/-- The last call admits null, a default aside. -/
inductive Zod.Chain.EndsNullable : Chain → Prop where
  | nullable (c : Chain) : EndsNullable (.call c "nullable" .none)
  | nullish (c : Chain) : EndsNullable (.call c "nullish" .none)
  | default {c : Chain} (h : EndsNullable c) (constant : String) :
      EndsNullable (.call c "default" (.constant constant))

namespace TypeExpr

variable {t : TypeExpr} {ts : List TypeExpr}

theorem admitsNull_union : (TypeExpr.union ts).AdmitsNull ↔ ∃ t ∈ ts, t.AdmitsNull := by
  constructor
  · intro h
    cases h with
    | union listed h => exact ⟨_, listed, h⟩
  · rintro ⟨t, listed, h⟩
    exact .union listed h

theorem same_null (h : t.same .null = true) : t = .null := by
  cases t <;> first | rfl | simp [same] at h

theorem same_any (h : t.same .any = true) : t = .any := by
  cases t <;> first | rfl | simp [same] at h

theorem null_isIn (h : TypeExpr.null.isIn ts = true) : .null ∈ ts := by
  obtain ⟨t, listed, same⟩ := List.any_eq_true.mp h
  exact same_null same ▸ listed

theorem withNull_admitsNull (t : TypeExpr) : t.withNull.AdmitsNull := by
  unfold withNull
  split
  · exact .null
  · exact .any
  · refine .union ?_ .null
    split
    · rename_i known
      exact null_isIn known
    · exact List.mem_append_right _ List.mem_cons_self
  · exact .union (List.mem_cons_of_mem _ List.mem_cons_self) .null

theorem ofMembers_admitsNull {otherwise : TypeExpr} (some_member : ts ≠ []) :
    (ofMembers otherwise ts).AdmitsNull ↔ ∃ t ∈ ts, t.AdmitsNull := by
  unfold ofMembers
  split
  · exact absurd rfl some_member
  · simp
  · exact admitsNull_union

end TypeExpr

def Json.IsLoose (v : Json) : Prop := (constType v).AdmitsNull

theorem Json.isLoose_iff {v : Json} : v.IsLoose ↔ constType v = .null ∨ constType v = .any := by
  unfold IsLoose
  constructor
  · intro admits
    cases v <;> first | exact .inl rfl | exact .inr rfl | exact nomatch admits
  · rintro (null | any)
    · exact null ▸ .null
    · exact any ▸ .any

theorem Json.text_not_loose (text : String) : ¬(Json.text text).IsLoose := by
  intro loose
  cases loose

theorem enumType_admitsNull {values : List Json} :
    (enumType values).AdmitsNull ↔ ∃ v ∈ values, v.IsLoose := by
  have members : (enumType values).AdmitsNull ↔
      ∃ t ∈ TypeExpr.distinct (values.map constType), t.AdmitsNull := by
    unfold enumType
    split
    · rename_i single
      simp [single]
    · exact TypeExpr.admitsNull_union
  rw [members]
  constructor
  · rintro ⟨_, kept, admits⟩
    obtain ⟨v, listed, rfl⟩ := List.mem_map.mp (TypeExpr.mem_of_distinct kept)
    exact ⟨v, listed, admits⟩
  · rintro ⟨v, listed, loose⟩
    obtain ⟨u, kept, same⟩ := TypeExpr.mem_distinct (List.mem_map_of_mem (f := constType) listed)
    refine ⟨u, kept, ?_⟩
    rcases same with rfl | same
    · exact loose
    · rcases Json.isLoose_iff.mp loose with null | any
      · rw [null] at same
        exact TypeExpr.same_null same ▸ .null
      · rw [any] at same
        exact TypeExpr.same_any same ▸ .any

namespace Schema

variable {s : Schema}

structure IsBare (s : Schema) : Prop where
  oneOf : s.oneOf = []
  anyOf : s.anyOf = []
  allOf : s.allOf = []
  enumValues : s.enumValues = []
  constValue : s.constValue = none

/-- The keyword that comes before `type` admits null by what it holds. -/
inductive PartsAdmitNull (s : Schema) : Prop where
  | oneOf {m : SchemaRef} (listed : m ∈ s.oneOf) (h : m.typeExpr.AdmitsNull)
  | anyOf {m : SchemaRef} (first : s.oneOf = []) (listed : m ∈ s.anyOf)
      (h : m.typeExpr.AdmitsNull)
  | allOf {m : SchemaRef} (first : s.oneOf = []) (second : s.anyOf = []) (single : s.allOf = [m])
      (plain : s.properties = []) (h : m.typeExpr.AdmitsNull)
  | enumeration {v : Json} (first : s.oneOf = []) (second : s.anyOf = []) (third : s.allOf = [])
      (listed : v ∈ s.enumValues) (h : v.IsLoose)
  | constant {v : Json} (first : s.oneOf = []) (second : s.anyOf = []) (third : s.allOf = [])
      (fourth : s.enumValues = []) (given : s.constValue = some v) (h : v.IsLoose)

theorem isNullable_named (nullable : s.isNullable = true) (flag : s.nullable ≠ some true) :
    s.type.any (·.contains .null) = true := by
  rcases Bool.or_eq_true_iff.mp nullable with flagged | named
  · exact absurd (by simpa [Option.getD_eq_iff] using flagged) flag
  · exact named

/-- Null among the type names is a member of the type that they give. -/
theorem plainType_admitsNull (named : s.type.any (·.contains .null) = true) :
    s.plainType.AdmitsNull := by
  unfold plainType
  cases type : s.type with
  | none => simp [type] at named
  | some names =>
    rw [type] at named
    have named : TypeName.null ∈ names.names := by simpa [TypeSet.contains] using named
    cases names with
    | single t =>
      rw [← List.mem_singleton.mp named]
      dsimp only
      rw [namedType]
      exact .null
    | several ts =>
      dsimp only [TypeSet.names] at named ⊢
      rw [if_pos (by simpa using named)]
      have last : TypeExpr.null ∈ (nonNull ts).map s.namedType ++ [.null] :=
        List.mem_append_right _ List.mem_cons_self
      rw [TypeExpr.ofMembers_admitsNull (List.ne_nil_of_mem last)]
      exact ⟨_, last, .null⟩

theorem Conjoins.admitsNull {t : TypeExpr} (h : s.Conjoins t) :
    t.AdmitsNull ↔ ∃ m : SchemaRef, s.allOf = [m] ∧ s.properties = [] ∧ m.typeExpr.AdmitsNull := by
  cases h with
  | @single m members plain =>
    constructor
    · exact fun admits => ⟨m, members, plain, admits⟩
    · rintro ⟨m', members', _, admits⟩
      rw [members, List.cons.injEq] at members'
      exact members'.1 ▸ admits
  | flat several _ =>
    constructor
    · exact fun admits => nomatch admits
    · rintro ⟨m, members, plain, _⟩
      exact absurd members (several plain m)
  | parts _ _ several =>
    constructor
    · exact fun admits => nomatch admits
    · rintro ⟨m, members, plain, _⟩
      simp [conjuncts, members, plain] at several

theorem baseType_admitsNull (named : s.type.any (·.contains .null) = true) :
    s.baseType.AdmitsNull ↔ s.IsBare ∨ s.PartsAdmitNull := by
  constructor
  · intro admits
    have gives := s.baseType_gives
    generalize s.baseType = t at gives admits
    cases gives with
    | oneOf _ =>
      obtain ⟨_, member, admits⟩ := TypeExpr.admitsNull_union.mp admits
      obtain ⟨m, listed, rfl⟩ := List.mem_map.mp member
      exact .inr (.oneOf listed admits)
    | anyOf first _ =>
      obtain ⟨_, member, admits⟩ := TypeExpr.admitsNull_union.mp admits
      obtain ⟨m, listed, rfl⟩ := List.mem_map.mp member
      exact .inr (.anyOf first listed admits)
    | allOf first second _ form =>
      obtain ⟨m, single, plain, admits⟩ := form.admitsNull.mp admits
      exact .inr (.allOf first second single plain admits)
    | enumeration first second third _ =>
      obtain ⟨v, listed, loose⟩ := enumType_admitsNull.mp admits
      exact .inr (.enumeration first second third listed loose)
    | constant first second third fourth given =>
      exact .inr (.constant first second third fourth given admits)
    | types first second third fourth fifth => exact .inl ⟨first, second, third, fourth, fifth⟩
  · rintro (bare | parts)
    · have gives := Gives.types bare.oneOf bare.anyOf bare.allOf bare.enumValues bare.constValue
      rw [gives.baseType_eq]
      exact plainType_admitsNull named
    · cases parts with
      | oneOf listed admits =>
        rw [(Gives.oneOf (List.ne_nil_of_mem listed)).baseType_eq]
        exact .union (List.mem_map_of_mem listed) admits
      | anyOf first listed admits =>
        rw [(Gives.anyOf first (List.ne_nil_of_mem listed)).baseType_eq]
        exact .union (List.mem_map_of_mem listed) admits
      | allOf first second single plain admits =>
        have given : s.allOf ≠ [] := by simp [single]
        rw [(Gives.allOf first second given (.single single plain)).baseType_eq]
        exact admits
      | enumeration first second third listed loose =>
        rw [(Gives.enumeration first second third (List.ne_nil_of_mem listed)).baseType_eq]
        exact enumType_admitsNull.mpr ⟨_, listed, loose⟩
      | constant first second third fourth given loose =>
        rw [(Gives.constant first second third fourth given).baseType_eq]
        exact loose

/-- The keyword `nullable` is heard whatever else decides; null among the type names only where
nothing else does. -/
theorem typeExpr_admitsNull (nullable : s.isNullable = true) :
    s.typeExpr.AdmitsNull ↔ s.nullable = some true ∨ s.IsBare ∨ s.PartsAdmitNull := by
  rw [typeExpr]
  by_cases flag : s.nullable = some true
  · rw [if_pos flag]
    exact iff_of_true s.baseType.withNull_admitsNull (.inl flag)
  · rw [if_neg flag, baseType_admitsNull (isNullable_named nullable flag)]
    simp [flag]

theorem isNullable_not_interface (nullable : s.isNullable = true) : s.isInterfaceLike = false := by
  unfold isInterfaceLike
  by_cases flag : s.nullable = some true
  · simp [flag]
  · have named := isNullable_named nullable flag
    cases type : s.type with
    | none => simp [type] at named
    | some names =>
      have : names ≠ .single .object := by
        rintro rfl
        simp [type, TypeSet.contains, TypeSet.names] at named
      simp [this]

theorem modelBody_admitsNull (nullable : s.isNullable = true) : s.modelBody.AdmitsNull ↔
    s.ListsScalars ∨ s.alternatives ≠ [] ∨ s.typeExpr.AdmitsNull := by
  have notInterface := isNullable_not_interface nullable
  have declares := s.modelBody_declares
  generalize s.modelBody = body at declares ⊢
  cases declares with
  | enumeration given => exact iff_of_true (by simp [ModelBody.AdmitsNull, nullable]) (.inl given)
  | union first given =>
    refine iff_of_true ⟨.null, ?_, .null⟩ (.inr (.inl given))
    rw [nullable, Bool.true_and]
    split
    · exact List.mem_append_right _ List.mem_cons_self
    · rename_i known
      exact TypeExpr.null_isIn (by simpa using known)
  | flat _ _ interface => cases notInterface.symm.trans interface
  | object _ _ interface => cases notInterface.symm.trans interface
  | «alias» first second => simp [first, second, ModelBody.AdmitsNull]

end Schema

namespace Zod

theorem Validator.finish_endsNullable (v : Validator) {s : Schema} (nullable : s.isNullable = true)
    (name : String) (required : Bool) :
    (v.finish s.toKeywords name required).chain.EndsNullable := by
  have admits : (s.nullable.getD false || s.type.any (·.contains .null) ||
      s.enumValues.any Json.isNull) = true := by
    unfold Schema.isNullable at nullable
    rw [nullable, Bool.true_or]
  unfold finish
  rw [admits]
  cases s.default with
  | none => cases required with
    | false => exact .nullish _
    | true => exact .nullable _
  | some d => cases required with
    | false => exact .default (.nullish _) _
    | true => exact .default (.nullable _) _

theorem Scope.validate_endsNullable (g : Scope) {s : Schema} (nullable : s.isNullable = true)
    {name : String} {required : Bool} {v : Validator}
    (run : g.validate (.item s) name required = .ok v) : v.chain.EndsNullable := by
  rw [validate, validateSchema, Outcome.bind_eq_ok] at run
  obtain ⟨base, _, finished⟩ := run
  rw [Outcome.pure_eq_ok] at finished
  rw [finished]
  exact base.finish_endsNullable nullable name required

end Zod

/-- What a schema that may be null is rendered as. Its validator always ends in a call that admits
null. Its type hears null among the type names only where `type` decides alone or where a part
admits null anyway, and its declaration only there or where it lists values or alternatives. -/
theorem Schema.isNullable_renderings {s : Schema} (nullable : s.isNullable = true) :
    (s.typeExpr.AdmitsNull ↔ s.nullable = some true ∨ s.IsBare ∨ s.PartsAdmitNull) ∧
    (∀ name, (Model.ofSchema name (.item s)).body.AdmitsNull ↔
      s.ListsScalars ∨ s.alternatives ≠ [] ∨ s.typeExpr.AdmitsNull) ∧
    ∀ (g : Zod.Scope) name required,
      (∀ v, g.validate (.item s) name required = .ok v → v.chain.EndsNullable) ∧
      (g.arena.Closed → g.busy = [] → g.arena.Covers (.item s) →
        ∃ v, g.validate (.item s) name required = .ok v) :=
  ⟨typeExpr_admitsNull nullable, fun _ => modelBody_admitsNull nullable, fun g _ _ =>
    ⟨fun _ run => g.validate_endsNullable nullable run, fun closed start covers =>
      Zod.Scope.validate_total closed start covers _ _⟩⟩

/-- Two sizes or null, where only the type names say so. -/
def sizes : Schema where
  type := some (.several [.string, .null])
  enumValues := [.text "small", .text "large"]

theorem Schema.isNullable_renderings_sizes : ¬sizes.typeExpr.AdmitsNull ∧
    (Model.ofSchema "Size" (.item sizes)).body.AdmitsNull ∧
    ∀ (g : Zod.Scope) v, g.validate (.item sizes) "Size" true = .ok v → v.chain.EndsNullable := by
  obtain ⟨inline, declared, validator⟩ := Schema.isNullable_renderings (s := sizes) (by decide)
  have listed : sizes.ListsScalars := by
    simp [ListsScalars, sizes, TypeSet.names, TypeName.isScalar]
  refine ⟨fun admits => ?_, (declared "Size").mpr (.inl listed),
    fun g v => (validator g "Size" true).1 v⟩
  rcases inline.mp admits with flag | bare | parts
  · cases flag
  · cases bare.enumValues
  · cases parts with
    | oneOf listed => cases listed
    | anyOf _ listed => cases listed
    | allOf _ _ single => cases single
    | enumeration _ _ _ listed loose =>
      simp only [sizes, List.mem_cons, List.not_mem_nil, or_false] at listed
      rcases listed with rfl | rfl
      · exact Json.text_not_loose _ loose
      · exact Json.text_not_loose _ loose
    | constant _ _ _ _ given => cases given

end TypedClients
