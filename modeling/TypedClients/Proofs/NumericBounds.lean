import Mathlib.Algebra.Order.Field.Rat
import Mathlib.Order.WithBot
import TypedClients.Proofs.Constants
import TypedClients.Proofs.Keyed

namespace TypedClients

abbrev Quantity := WithBot (WithTop ℚ)

def Quantity.ofRat (q : ℚ) : Quantity := ((q : WithTop ℚ) : WithBot (WithTop ℚ))

theorem Quantity.ofRat_lt {p q : ℚ} : ofRat p < ofRat q ↔ p < q :=
  WithBot.coe_lt_coe.trans WithTop.coe_lt_coe

/-- What a number in floating point stands for, if it is a number. -/
def Decimal.Double.quantity? (d : Decimal.Double) : Option Quantity :=
  if d.isNaN then none
  else if d.isFinite then some (.ofRat (d.scaled / 2 ^ 1074))
  else some (if d.negative then ⊥ else ⊤)

theorem Decimal.Double.quantity?_whole {d : Decimal.Double} {n : ℤ} (finite : d.isFinite = true)
    (whole : d.scaled = n * 2 ^ 1074) : d.quantity? = some (.ofRat n) := by
  have number : d.isNaN = false := by
    unfold isFinite at finite
    unfold isNaN
    rw [bne_iff_ne] at finite
    rw [beq_false_of_ne finite, Bool.false_and]
  have exact : (d.scaled / 2 ^ 1074 : ℚ) = n := by
    rw [whole, Int.cast_mul, Int.cast_pow]
    exact mul_div_cancel_right₀ _ (pow_ne_zero _ two_ne_zero)
  unfold quantity?
  rw [number, finite, exact]
  rfl

inductive Side where
  | lower
  | upper
deriving DecidableEq, Repr

namespace Side

def Holds (side : Side) (strict : Bool) (bound x : Quantity) : Prop :=
  match side, strict with
  | .lower, false => bound ≤ x
  | .lower, true => bound < x
  | .upper, false => x ≤ bound
  | .upper, true => x < bound

/-- Nothing compares with what is not a number. -/
def HoldsFor (side : Side) (strict : Bool) (d : Decimal.Double) (x : Quantity) : Prop :=
  ∃ bound ∈ d.quantity?, side.Holds strict bound x

/-- What a schema demands of numbers. A plain bound becomes strict by a flag beside it; a number
beside it is a bound of its own. -/
def Demanded (side : Side) (bound : Option Decimal.Double) (beside : Option ExclusiveBound)
    (x : Quantity) : Prop :=
  (∀ d ∈ bound, side.HoldsFor (beside = some (.flag true)) d x) ∧
    ∀ e, beside = some (.value e) → side.HoldsFor true e x

/-- What is called for. A number beside the plain bound takes its place. -/
def Called (side : Side) (bound : Option Decimal.Double) (beside : Option ExclusiveBound)
    (x : Quantity) : Prop :=
  match beside with
  | some (.value e) => side.HoldsFor true e x
  | _ => ∀ d ∈ bound, side.HoldsFor (beside = some (.flag true)) d x

/-- The plain bound, where a number stands beside it. -/
def Overruled (side : Side) (bound : Option Decimal.Double) (beside : Option ExclusiveBound)
    (x : Quantity) : Prop :=
  ∀ d ∈ bound, ∀ e, beside = some (.value e) → side.HoldsFor false d x

def Subsumed (side : Side) (bound : Option Decimal.Double) (beside : Option ExclusiveBound) :
    Prop :=
  ∀ d ∈ bound, ∀ e, beside = some (.value e) → ∀ y ∈ e.quantity?, side.HoldsFor false d y

variable {side : Side} {bound : Option Decimal.Double} {beside : Option ExclusiveBound}
  {x : Quantity}

theorem demanded_iff :
    side.Demanded bound beside x ↔ side.Called bound beside x ∧ side.Overruled bound beside x := by
  unfold Demanded Called Overruled
  match beside with
  | some (.value e) => simp [and_comm]
  | some (.flag on) => simp
  | none => simp

theorem Holds.within {outer inner x : Quantity} (first : side.Holds false outer inner)
    (next : side.Holds true inner x) : side.Holds false outer x := by
  cases side with
  | lower => exact le_trans first (le_of_lt next)
  | upper => exact le_trans (le_of_lt next) first

theorem Subsumed.overruled (h : side.Subsumed bound beside) (called : side.Called bound beside x) :
    side.Overruled bound beside x := by
  -- The number beside the bound stands between the bound and `x`.
  rintro d given e rfl
  obtain ⟨inner, exact, strict⟩ := called
  obtain ⟨outer, known, plain⟩ := h d given e rfl inner exact
  exact ⟨outer, known, plain.within strict⟩

def plainCall : Side → String
  | .lower => "min"
  | .upper => "max"

def strictCall : Side → String
  | .lower => "gt"
  | .upper => "lt"

end Side

namespace Keywords

def Bounded (s : Keywords) (x : Quantity) : Prop :=
  Side.lower.Demanded s.minimum s.exclusiveMinimum x ∧
    Side.upper.Demanded s.maximum s.exclusiveMaximum x

def Called (s : Keywords) (x : Quantity) : Prop :=
  Side.lower.Called s.minimum s.exclusiveMinimum x ∧
    Side.upper.Called s.maximum s.exclusiveMaximum x

def Overruled (s : Keywords) (x : Quantity) : Prop :=
  Side.lower.Overruled s.minimum s.exclusiveMinimum x ∧
    Side.upper.Overruled s.maximum s.exclusiveMaximum x

def Subsumed (s : Keywords) : Prop :=
  Side.lower.Subsumed s.minimum s.exclusiveMinimum ∧
    Side.upper.Subsumed s.maximum s.exclusiveMaximum

theorem bounded_iff {s : Keywords} {x : Quantity} : s.Bounded x ↔ s.Called x ∧ s.Overruled x := by
  unfold Bounded Called Overruled
  rw [Side.demanded_iff, Side.demanded_iff, and_and_and_comm]

theorem Subsumed.overruled {s : Keywords} {x : Quantity} (h : s.Subsumed) (called : s.Called x) :
    s.Overruled x := ⟨h.1.overruled called.1, h.2.overruled called.2⟩

end Keywords

namespace Zod

def comparison? : String → Option (Side × Bool)
  | "min" => some (.lower, false)
  | "gt" => some (.lower, true)
  | "max" => some (.upper, false)
  | "lt" => some (.upper, true)
  | _ => none

/-- Whether a number passes a call. The bound is a constant that has to be known. -/
def Passes (known : String → Option ConstantValue) (x : Quantity) (function : String)
    (argument : Argument) : Prop :=
  ∀ c ∈ comparison? function,
    ∃ name d, argument = .constant name ∧ known name = some (.number d) ∧ c.1.HoldsFor c.2 d x

def Chain.Admits (known : String → Option ConstantValue) (x : Quantity) : Chain → Prop
  | .start => True
  | .name before _ => before.Admits known x
  | .call before function argument => before.Admits known x ∧ Passes known x function argument

variable {known : String → Option ConstantValue} {x : Quantity}

theorem passes_of_none {function : String} (other : comparison? function = none)
    (argument : Argument) : Passes known x function argument := by
  intro c mem
  rw [other] at mem
  cases mem

theorem passes_constant {function name : String} {side : Side} {strict : Bool} {d : Decimal.Double}
    (call : comparison? function = some (side, strict)) (found : known name = some (.number d)) :
    Passes known x function (.constant name) ↔ side.HoldsFor strict d x := by
  constructor
  · intro passes
    obtain ⟨_, e, same, again, holds⟩ := passes _ call
    cases same
    rw [found] at again
    cases again
    exact holds
  · rintro holds _ mem
    rw [call] at mem
    cases mem
    exact ⟨name, d, rfl, found, holds⟩

namespace Validator

def lookup? (v : Validator) (name : String) : Option ConstantValue :=
  Keyed.find? name (v.constants.map fun c => (c.name, c.value))

/-- Whether a number passes the calls, with the constants that the validator comes with. -/
def Admits (v : Validator) (x : Quantity) : Prop := v.chain.Admits v.lookup? x

def Known (v : Validator) (known : String → Option ConstantValue) : Prop :=
  ∀ c ∈ v.constants, known c.name = some c.value

variable {v : Validator}

theorem known_lookup? (distinct : v.names.Nodup) : v.Known v.lookup? := by
  intro c mem
  apply Keyed.find?_of_mem
  · unfold Keyed.keys
    rw [List.map_map]
    exact distinct
  · exact List.mem_map.mpr ⟨c, mem, rfl⟩

theorem Known.callConstant {function name : String} {value : ConstantValue}
    (h : (v.callConstant function name value).Known known) :
    v.Known known ∧ known name = some value := by
  refine ⟨fun c mem => h c (List.mem_append_left _ mem), ?_⟩
  exact h ⟨name, value⟩ (List.mem_append_right _ List.mem_cons_self)

theorem callConstant_admits {function name : String} {side : Side} {strict : Bool}
    {d : Decimal.Double} (call : comparison? function = some (side, strict))
    (h : (v.callConstant function name (.number d)).Known known) :
    (v.callConstant function name (.number d)).chain.Admits known x ↔
      v.chain.Admits known x ∧ side.HoldsFor strict d x :=
  and_congr_right' (passes_constant call h.callConstant.2)

theorem callBound_known {name plain exclusive suffix : String} {bound : Option Decimal.Double}
    {beside : Option ExclusiveBound}
    (h : (v.callBound name plain exclusive suffix bound beside).Known known) : v.Known known := by
  unfold callBound at h
  split at h
  · exact h.callConstant.1
  · exact h.callConstant.1
  · exact h.callConstant.1
  · exact h

theorem callBound_admits (side : Side) {name suffix : String} {bound : Option Decimal.Double}
    {beside : Option ExclusiveBound}
    (h : (v.callBound name side.plainCall side.strictCall suffix bound beside).Known known) :
    (v.callBound name side.plainCall side.strictCall suffix bound beside).chain.Admits known x ↔
      v.chain.Admits known x ∧ side.Called bound beside x := by
  have plain : comparison? side.plainCall = some (side, false) := by cases side <;> rfl
  have strict : comparison? side.strictCall = some (side, true) := by cases side <;> rfl
  unfold Side.Called
  match bound, beside with
  | none, some (.value e) => exact callConstant_admits strict h
  | some d, some (.value e) => exact callConstant_admits strict h
  | some d, some (.flag true) => exact (callConstant_admits strict h).trans (by simp)
  | some d, some (.flag false) => exact (callConstant_admits plain h).trans (by simp)
  | some d, none => exact (callConstant_admits plain h).trans (by simp)
  | none, some (.flag on) => simp [callBound]
  | none, none => simp [callBound]

theorem finish_admits (v : Validator) (s : Keywords) (name : String) (required : Bool) :
    (v.finish s name required).chain.Admits known x ↔ v.chain.Admits known x := by
  apply finish_keeps (P := fun w => w.chain.Admits known x ↔ v.chain.Admits known x)
  · intro w function listed same
    have other : comparison? function = none := by
      simp only [List.mem_cons, List.not_mem_nil, or_false] at listed
      rcases listed with rfl | rfl | rfl <;> rfl
    exact (and_iff_left (passes_of_none other _)).trans same
  · intro w name value same
    have other : comparison? "default" = none := rfl
    exact (and_iff_left (passes_of_none other _)).trans same
  · rfl

theorem Known.of_finish {s : Keywords} {name : String} {required : Bool}
    (h : (v.finish s name required).Known known) : v.Known known := by
  revert h
  apply finish_keeps (P := fun w => w.Known known → v.Known known)
  · exact fun w function _ keeps => keeps
  · exact fun w name value keeps h => keeps h.callConstant.1
  · exact id

end Validator

namespace Options

variable {o : Options} {s : Keywords} {name : String}

/-- The constants of a number and of its default value go by different names. -/
theorem number_finish_names_nodup (o : Options) (s : Keywords) (name : String) (required : Bool) :
    ((o.number s name).finish s name required).names.Nodup := by
  rw [Validator.finish_names, number_names, ← List.map_append]
  apply List.Nodup.map
  · intro j k same
    exact Suffix.text_injective ((String.append_right_inj name).mp same)
  · apply (suffixes_nodup s o.coerce .number).append
    · exact (optionSuffix_sublist _ _).nodup (List.nodup_singleton _)
    · intro k mem default
      have same := List.mem_singleton.mp ((optionSuffix_sublist _ _).mem default)
      subst same
      exact default_notMem_suffixes s o.coerce .number mem

theorem number_admits (plain : ¬(s.format = some "int64" ∧ o.coerce.appliesTo .bigint = true)) :
    (o.number s name).Known known →
      ((o.number s name).chain.Admits known x ↔ s.Called x) := by
  unfold number
  rw [if_neg plain]
  extract_lets base lower upper
  intro h
  have start : base.chain.Admits known x := by
    refine ⟨trivial, passes_of_none ?_ _⟩
    split <;> rfl
  have bounded (h : upper.Known known) : upper.chain.Admits known x ↔ s.Called x := by
    have last : upper.chain.Admits known x ↔
        lower.chain.Admits known x ∧ Side.upper.Called s.maximum s.exclusiveMaximum x :=
      Validator.callBound_admits .upper h
    have first : lower.chain.Admits known x ↔
        base.chain.Admits known x ∧ Side.lower.Called s.minimum s.exclusiveMinimum x :=
      Validator.callBound_admits .lower (Validator.callBound_known h)
    rw [last, first, and_iff_right start]
    rfl
  cases given : s.multipleOf with
  | none =>
    rw [given] at h
    exact bounded h
  | some d =>
    rw [given] at h
    -- The step is not a bound.
    have step : comparison? "multipleOf" = none := rfl
    exact (and_iff_left (passes_of_none step _)).trans (bounded h.callConstant.1)

end Options

theorem Scope.validateBase_of_form {g : Scope} {s : Schema} {t : TypeName} {name : String}
    (form : s.form = .types [t]) : g.validateBase s name = g.validateType s t name := by
  unfold Schema.form at form
  have oneOf : s.oneOf = [] := by
    by_contra some
    simp [some] at form
  have anyOf : s.anyOf = [] := by
    by_contra some
    simp [oneOf, some] at form
  have allOf : s.allOf = [] := by
    by_contra some
    simp [oneOf, anyOf, some] at form
  have enumValues : s.enumValues = [] := by
    by_contra some
    simp [oneOf, anyOf, allOf, some] at form
  rw [validateBase]
  simp only [oneOf, anyOf, allOf, enumValues, List.isEmpty_nil, Bool.not_true, Bool.false_eq_true,
    if_false] at form ⊢
  cases constValue : s.constValue with
  | some v =>
    rw [constValue] at form
    cases form
  | none =>
    rw [constValue] at form
    cases type : s.type with
    | some names =>
      rw [type] at form
      cases names with
      | single u =>
        cases form
        rfl
      | several ts =>
        dsimp only
        rw [Form.types.inj form, List.isEmpty_cons, if_neg Bool.false_ne_true, List.mapM_cons]
        cases g.validateType s t name <;> rfl
    | none =>
      rw [type] at form
      dsimp only at form ⊢
      split at form
      · rename_i object
        cases form
        rw [if_pos object, validateType]
      · rename_i object
        rw [if_neg object]
        split at form
        · rename_i array
          cases form
          rw [if_pos array, validateType]
        · cases form

/-- A number passes the calls if and only if all bounds of the schema hold, apart from a plain bound
with a number beside it. -/
theorem Scope.validate_bounds {g : Scope} {s : Schema} {t : TypeName}
    (numeric : t = .number ∨ t = .integer)
    (plain : ¬(s.format = some "int64" ∧ g.options.coerce.appliesTo .bigint = true))
    (name : String) :
    ∃ v, g.validateType s t name = .ok v ∧
      (∀ x, v.Admits x ↔ s.Called x) ∧
      (∀ x, s.Bounded x ↔ v.Admits x ∧ s.Overruled x) ∧
      (s.Subsumed → ∀ x, s.Bounded x ↔ v.Admits x) ∧
      (s.form = .types [t] → ∀ required, ∃ w, g.validate (.item s) name required = .ok w ∧
        ∀ x, w.Admits x ↔ v.Admits x) := by
  have made : g.validateType s t name = .ok (g.options.number s.toKeywords name) := by
    rcases numeric with rfl | rfl <;> rw [validateType]
  have distinct (required : Bool) := g.options.number_finish_names_nodup s.toKeywords name required
  have called (x : Quantity) : (g.options.number s.toKeywords name).Admits x ↔ s.Called x := by
    apply Options.number_admits plain
    apply Validator.known_lookup?
    have whole := distinct true
    rw [Validator.finish_names] at whole
    exact whole.of_append_left
  refine ⟨_, made, called, ?_, ?_, ?_⟩
  · intro x
    rw [called, Keywords.bounded_iff]
  · intro subsumed x
    rw [called, Keywords.bounded_iff]
    exact and_iff_left_of_imp subsumed.overruled
  · intro form required
    have whole : g.validate (.item s) name required =
        .ok ((g.options.number s.toKeywords name).finish s.toKeywords name required) := by
      rw [validate, validateSchema, validateBase_of_form form, made]
      rfl
    refine ⟨_, whole, fun x => ?_⟩
    have known := Validator.known_lookup? (distinct required)
    rw [called]
    exact (Validator.finish_admits _ _ _ _).trans (Options.number_admits plain known.of_finish)

/-- The plain bound is the stricter one. -/
def narrowed : Schema :=
  { type := some (.single .number)
    minimum := some ⟨0x4014000000000000⟩
    exclusiveMinimum := some (.value ⟨0x4008000000000000⟩) }

/-- A number between the bounds passes the calls, though it is below the plain bound. -/
theorem Scope.validate_bounds_narrowed :
    narrowed.form = .types [.number] ∧ narrowed.format ≠ some "int64" ∧
      ∃ w, validate ⟨⟨[]⟩, ⟨.third, false, .all false⟩, .inline, []⟩ (.item narrowed) "model" true =
          .ok w ∧
        w.Admits (.ofRat 4) ∧ ¬ narrowed.Bounded (.ofRat 4) := by
  have five : (⟨0x4014000000000000⟩ : Decimal.Double).quantity? = some (.ofRat 5) :=
    Decimal.Double.quantity?_whole (n := 5) (by decide) (by decide +kernel)
  have three : (⟨0x4008000000000000⟩ : Decimal.Double).quantity? = some (.ofRat 3) :=
    Decimal.Double.quantity?_whole (n := 3) (by decide) (by decide +kernel)
  have called : narrowed.Called (.ofRat 4) := by
    refine ⟨⟨_, three, ?_⟩, fun d given => by cases given⟩
    exact Quantity.ofRat_lt.mpr (by decide)
  have below : ¬ narrowed.Bounded (.ofRat 4) := by
    intro bounded
    obtain ⟨bound, known, holds⟩ := bounded.1.1 _ rfl
    rw [five] at known
    cases known
    have order : Quantity.ofRat 5 ≤ Quantity.ofRat 4 := holds
    exact absurd order (not_le.mpr (Quantity.ofRat_lt.mpr (by decide)))
  obtain ⟨v, _, admits, _, _, alone⟩ :=
    validate_bounds (g := ⟨⟨[]⟩, ⟨.third, false, .all false⟩, .inline, []⟩) (s := narrowed)
      (t := .number) (.inl rfl) (by decide) "model"
  obtain ⟨w, made, same⟩ := alone rfl true
  have passes : w.Admits (.ofRat 4) := by
    rw [same, admits]
    exact called
  exact ⟨rfl, by decide, w, made, passes, below⟩

end Zod

end TypedClients
