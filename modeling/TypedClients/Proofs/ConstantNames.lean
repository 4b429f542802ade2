import TypedClients.Proofs.Enumerates
import TypedClients.Zod.Validate

namespace TypedClients

namespace Zod

/-- A step from a schema to one inside it. Entries of one list are told apart by their positions. -/
inductive Step where
  | property (i : Nat) (key : String)
  | value
  | item
  | option (i : Nat)
  | part (i : Nat)
  /-- One of the types of the same schema. -/
  | type (i : Nat)
deriving DecidableEq, Repr

inductive Suffix where
  | min
  | max
  | exclusiveMin
  | exclusiveMax
  | multipleOf
  | minLength
  | maxLength
  | regExp
  | minItems
  | maxItems
  | default
deriving DecidableEq, Repr

def Step.text : Step → String
  | .property _ key => modelName key
  | .value => "Value"
  | .item => "Item"
  | .option i => "Option" ++ Decimal.digitText (i + 1)
  | .part i => "Part" ++ Decimal.digitText (i + 1)
  | .type _ => ""

def Suffix.text : Suffix → String
  | .min => "Min"
  | .max => "Max"
  | .exclusiveMin => "ExclusiveMin"
  | .exclusiveMax => "ExclusiveMax"
  | .multipleOf => "MultipleOf"
  | .minLength => "MinLength"
  | .maxLength => "MaxLength"
  | .regExp => "RegExp"
  | .minItems => "MinItems"
  | .maxItems => "MaxItems"
  | .default => "Default"

/-- A place in a schema at which a constant is declared. -/
abbrev ConstantSite := List Step × Suffix

def spell (name : String) : List Step → Suffix → String
  | [], k => name ++ k.text
  | step :: rest, k => spell (name ++ step.text) rest k

/-- A number that is a bound of its own takes the place of the plain one. -/
def boundSuffix (plain exclusive : Suffix) (bound : Option Decimal.Double)
    (exclusiveBound : Option ExclusiveBound) : List Suffix :=
  match bound, exclusiveBound with
  | _, some (.value _) => [exclusive]
  | some _, _ => [plain]
  | none, _ => []

def optionSuffix {α : Type} (k : Suffix) (v : Option α) : List Suffix := (v.map fun _ => k).toList

end Zod

open Zod

namespace Keywords

/-- Files and dates have no bounds. -/
def isBoundedText (coerce : CoerceSetting) (format : Option String) : Bool :=
  match format with
  | some "binary" => false
  | some "date-time" => !coerce.appliesTo .date
  | some "date" => !coerce.appliesTo .date
  | _ => true

def suffixes (s : Keywords) (coerce : CoerceSetting) : TypeName → List Suffix
  | .string =>
    if isBoundedText coerce s.format then
      optionSuffix .minLength s.minLength ++ optionSuffix .maxLength s.maxLength ++
        optionSuffix .regExp s.pattern
    else []
  | .number | .integer =>
    if s.format = some "int64" ∧ coerce.appliesTo .bigint then []
    else boundSuffix .min .exclusiveMin s.minimum s.exclusiveMinimum ++
      boundSuffix .max .exclusiveMax s.maximum s.exclusiveMaximum ++
        optionSuffix .multipleOf s.multipleOf
  | .array => optionSuffix .minItems s.minItems ++ optionSuffix .maxItems s.maxItems
  | _ => []

end Keywords

namespace Zod

/-- The names are those of the constants at some places, each of them once. -/
def Spells (P : List Step → Suffix → Prop) (name : String) (names : List String) : Prop :=
  Enumerates (fun (c : ConstantSite) n => P c.1 c.2 ∧ n = spell name c.1 c.2) names

namespace Spells

variable {P Q : List Step → Suffix → Prop} {name : String} {ns ms : List String}

theorem congr (h : Spells P name ns) (same : ∀ steps k, P steps k ↔ Q steps k) :
    Spells Q name ns :=
  Enumerates.congr h fun c _ => and_congr_left' (same c.1 c.2)

theorem nothing (none : ∀ steps k, ¬ P steps k) : Spells P name [] :=
  Enumerates.nothing fun c _ own => none c.1 c.2 own.1

theorem append (first : Spells P name ns) (second : Spells Q name ms)
    (apart : ∀ steps k, P steps k → ¬ Q steps k) :
    Spells (fun steps k => P steps k ∨ Q steps k) name (ns ++ ms) := by
  refine (Enumerates.append first second fun c _ _ own other => ?_).congr fun c n => ?_
  · exact apart c.1 c.2 own.1 other.1
  · exact or_and_right.symm

theorem step_injective (step : Step) :
    (fun c : ConstantSite => (step :: c.1, c.2)).Injective := by
  intro c d same
  simp only [Prod.mk.injEq, List.cons.injEq, true_and] at same
  exact Prod.ext same.1 same.2

theorem step (step : Step) (h : Spells P (name ++ step.text) ns) :
    Spells (fun steps k => ∃ rest, steps = step :: rest ∧ P rest k) name ns := by
  refine (Enumerates.map (step_injective step) h).congr ?_
  rintro ⟨steps, k⟩ n
  constructor
  · rintro ⟨⟨rest, _⟩, same, own, rfl⟩
    cases same
    exact ⟨⟨rest, rfl, own⟩, rfl⟩
  · rintro ⟨⟨rest, rfl, own⟩, rfl⟩
    exact ⟨(rest, k), rfl, own, rfl⟩

theorem suffixes {ks : List Suffix} (distinct : ks.Nodup) :
    Spells (fun steps k => steps = [] ∧ k ∈ ks) name (ks.map fun k => name ++ k.text) := by
  have alone : (fun k : Suffix => (([], k) : ConstantSite)).Injective :=
    fun j k same => congrArg Prod.snd same
  refine (Enumerates.map alone (.ofList distinct fun k => name ++ k.text)).congr ?_
  rintro ⟨steps, k⟩ n
  constructor
  · rintro ⟨_, same, listed, rfl⟩
    cases same
    exact ⟨⟨rfl, listed⟩, rfl⟩
  · rintro ⟨⟨rfl, listed⟩, rfl⟩
    exact ⟨k, rfl, listed, rfl⟩

theorem many {α : Type} (step : Nat → α → Step) (apart : ∀ i j a b, step i a = step j b → i = j)
    {P : α → List Step → Suffix → Prop} {as : List α} {nss : List (List String)}
    (h : List.Forall₂ (fun a ns => Spells (P a.1) (name ++ (step a.2 a.1).text) ns)
      as.zipIdx nss) :
    Spells (fun steps k => ∃ i a rest, as[i]? = some a ∧ steps = step i a :: rest ∧ P a rest k)
      name nss.flatten := by
  have all := Enumerates.many (fun i a (c : ConstantSite) => (step i a :: c.1, c.2))
    (fun i a => step_injective _)
    (fun i j a b c d same => apart i j a b (List.cons.inj (congrArg Prod.fst same)).1)
    (R := fun a i c n => P a c.1 c.2 ∧ n = spell (name ++ (step i a).text) c.1 c.2) h
  refine all.congr ?_
  rintro ⟨steps, k⟩ n
  simp only [Nat.zero_add]
  constructor
  · rintro ⟨i, a, ⟨rest, _⟩, listed, same, own, rfl⟩
    cases same
    exact ⟨⟨i, a, rest, listed, rfl, own⟩, rfl⟩
  · rintro ⟨⟨i, a, rest, listed, rfl, own⟩, rfl⟩
    exact ⟨i, a, (rest, k), listed, rfl, own, rfl⟩

end Spells

namespace Validator

def names (v : Validator) : List String := v.constants.map Constant.name

theorem union_names (vs : List Validator) : (union vs).names = (vs.map names).flatten := by
  unfold union
  split
  · simp
  · rw [adoptAll_eq]
    show List.map _ (List.flatMap _ _) = _
    rw [List.map_flatMap, List.flatMap_def]
    rfl

theorem and_names (v part : Validator) : (v.and part).names = v.names ++ part.names :=
  List.map_append

theorem intersection_names (vs : List Validator) :
    (intersection vs).names = (vs.map names).flatten := by
  cases vs with
  | nil => rfl
  | cons v rest =>
    suffices grown : ∀ acc : Validator,
        (rest.foldl Validator.and acc).names = acc.names ++ (rest.map names).flatten from grown _
    induction rest with
    | nil => simp
    | cons p rest ih =>
      intro acc
      rw [List.foldl_cons, ih, and_names]
      simp

theorem enumeration_names (values : List Json) : (enumeration values).names = [] := by
  unfold enumeration
  dsimp only
  split
  · rfl
  · split
    · rfl
    · rw [union_names, List.map_map]
      simp [names, literal, ofSource]

theorem callConstant_names (v : Validator) (function name : String) (value : ConstantValue) :
    (v.callConstant function name value).names = v.names ++ [name] := by
  simp [names, callConstant]

theorem callCount_names (v : Validator) (function name : String) (k : Suffix) (count : Option Nat) :
    (v.callCount function (name ++ k.text) count).names =
      v.names ++ (optionSuffix k count).map fun k => name ++ k.text := by
  cases count with
  | none => simp [callCount, optionSuffix]
  | some n => simp [callCount, callConstant_names, optionSuffix]

theorem callBound_names (v : Validator) (name plainCall exclusiveCall : String)
    (plain exclusive : Suffix) (text : exclusive.text = "Exclusive" ++ plain.text)
    (bound : Option Decimal.Double) (exclusiveBound : Option ExclusiveBound) :
    (v.callBound name plainCall exclusiveCall plain.text bound exclusiveBound).names =
      v.names ++
        (boundSuffix plain exclusive bound exclusiveBound).map fun k => name ++ k.text := by
  unfold callBound boundSuffix
  split <;> split <;>
    simp_all [callConstant_names, String.append_assoc]

theorem finish_keeps {P : Validator → Prop} {v : Validator}
    (call : ∀ w, ∀ function ∈ ["nullish", "nullable", "optional"], P w → P (w.call function .none))
    (default : ∀ w name value, P w → P (w.callConstant "default" name value))
    (h : P v) (s : Keywords) (name : String) (required : Bool) : P (v.finish s name required) := by
  unfold finish
  extract_lets nullable marked
  clear_value nullable
  have kept : P marked := by
    unfold marked
    split
    · exact call v _ (by decide) h
    · exact call v _ (by decide) h
    · split
      · exact call v _ (by decide) h
      · exact h
    · exact h
  cases s.default with
  | none => exact kept
  | some d => exact default _ _ _ kept

theorem finish_names (v : Validator) (s : Keywords) (name : String) (required : Bool) :
    (v.finish s name required).names =
      v.names ++ (optionSuffix Suffix.default s.default).map fun k => name ++ k.text := by
  unfold finish
  extract_lets nullable marked
  clear_value nullable
  have kept : marked.names = v.names := by
    unfold marked
    split
    · rfl
    · rfl
    · split <;> rfl
    · rfl
  have default : "Default" = Suffix.default.text := rfl
  rw [default]
  cases s.default with
  | none => simp [optionSuffix, kept]
  | some d => simp [optionSuffix, callConstant_names, kept]

end Validator

namespace Options

theorem textFormat_names (o : Options) (format : Option String) :
    (o.textFormat format).1.names = [] := by
  have check : ∀ method standalone, (o.textCheck method standalone).names = [] := by
    intro method standalone
    unfold textCheck
    split <;> rfl
  unfold textFormat
  split
  · rfl
  · split
    · rfl
    · exact check _ _
  · split
    · rfl
    · exact check _ _
  all_goals first | exact check _ _ | rfl

theorem textFormat_bounded (o : Options) (format : Option String) :
    (o.textFormat format).2 = Keywords.isBoundedText o.coerce format := by
  unfold textFormat Keywords.isBoundedText
  split <;> split <;> simp_all

theorem text_names (o : Options) (s : Keywords) (name : String) :
    (o.text s name).names = (s.suffixes o.coerce .string).map fun k => name ++ k.text := by
  have start := o.textFormat_names s.format
  have bounded := o.textFormat_bounded s.format
  unfold text Keywords.suffixes
  dsimp only
  rw [bounded]
  split
  · have min : "MinLength" = Suffix.minLength.text := rfl
    have max : "MaxLength" = Suffix.maxLength.text := rfl
    have pattern : "RegExp" = Suffix.regExp.text := rfl
    rw [min, max, pattern]
    cases s.pattern with
    | none => simp [Validator.callCount_names, start, optionSuffix]
    | some p =>
      simp [Validator.callCount_names, Validator.callConstant_names, start, optionSuffix]
  · simp [start]

theorem number_names (o : Options) (s : Keywords) (name : String) :
    (o.number s name).names = (s.suffixes o.coerce .number).map fun k => name ++ k.text := by
  unfold number Keywords.suffixes
  split
  · rfl
  · have min : "Min" = Suffix.min.text := rfl
    have max : "Max" = Suffix.max.text := rfl
    have step : "MultipleOf" = Suffix.multipleOf.text := rfl
    have start : (o.coerced "number" .number).names = [] := rfl
    have lower := fun v : Validator => v.callBound_names name "min" "gt" .min .exclusiveMin rfl
      s.minimum s.exclusiveMinimum
    have upper := fun v : Validator => v.callBound_names name "max" "lt" .max .exclusiveMax rfl
      s.maximum s.exclusiveMaximum
    dsimp only
    rw [min, max, step]
    cases s.multipleOf with
    | none =>
      dsimp only
      rw [upper, lower, start]
      simp [optionSuffix]
    | some d =>
      dsimp only
      rw [Validator.callConstant_names, upper, lower, start]
      simp [optionSuffix]

theorem objectOf_names (o : Options) (fields : List (String × Validator)) :
    (o.objectOf fields).names = (fields.map fun f => f.2.names).flatten := by
  have hoisted : (o.objectOf fields).constants = fields.flatMap fun f => f.2.constants := by
    unfold objectOf
    rw [Validator.adoptAll_eq, List.flatMap_map]
    dsimp only
    split <;> rfl
  unfold Validator.names
  rw [hoisted, List.map_flatMap, List.flatMap_def]

end Options

theorem optionSuffix_sublist {α : Type} (k : Suffix) (v : Option α) :
    (optionSuffix k v).Sublist [k] := by
  cases v with
  | none => exact List.nil_sublist _
  | some a => exact List.Sublist.refl _

theorem boundSuffix_sublist (plain exclusive : Suffix) (bound : Option Decimal.Double)
    (exclusiveBound : Option ExclusiveBound) :
    (boundSuffix plain exclusive bound exclusiveBound).Sublist [plain, exclusive] := by
  unfold boundSuffix
  split <;> simp

/-- No keyword becomes two constants of one type. -/
theorem suffixes_nodup (s : Keywords) (coerce : CoerceSetting) (t : TypeName) :
    (s.suffixes coerce t).Nodup := by
  have text : (optionSuffix .minLength s.minLength ++ optionSuffix .maxLength s.maxLength ++
      optionSuffix .regExp s.pattern).Sublist [.minLength, .maxLength, .regExp] :=
    ((optionSuffix_sublist _ _).append (optionSuffix_sublist _ _)).append (optionSuffix_sublist _ _)
  have number : (boundSuffix .min .exclusiveMin s.minimum s.exclusiveMinimum ++
      boundSuffix .max .exclusiveMax s.maximum s.exclusiveMaximum ++
        optionSuffix .multipleOf s.multipleOf).Sublist
          [.min, .exclusiveMin, .max, .exclusiveMax, .multipleOf] :=
    ((boundSuffix_sublist _ _ _ _).append (boundSuffix_sublist _ _ _ _)).append
      (optionSuffix_sublist _ _)
  have array : (optionSuffix .minItems s.minItems ++ optionSuffix .maxItems s.maxItems).Sublist
      [.minItems, .maxItems] := (optionSuffix_sublist _ _).append (optionSuffix_sublist _ _)
  unfold Keywords.suffixes
  split
  · split
    · exact text.nodup (by decide)
    · exact .nil
  · split
    · exact .nil
    · exact number.nodup (by decide)
  · split
    · exact .nil
    · exact number.nodup (by decide)
  · exact array.nodup (by decide)
  · exact .nil

theorem Suffix.text_injective : Suffix.text.Injective := by
  intro j k
  cases j <;> cases k <;> decide

theorem default_notMem_suffixes (s : Keywords) (coerce : CoerceSetting) (t : TypeName) :
    Suffix.default ∉ s.suffixes coerce t := by
  have option {α : Type} {k : Suffix} (other : k ≠ .default) (v : Option α) :
      Suffix.default ∉ optionSuffix k v := fun mem =>
    other (List.mem_singleton.mp ((optionSuffix_sublist k v).mem mem)).symm
  have bound {j k : Suffix} (first : j ≠ .default) (second : k ≠ .default)
      (b : Option Decimal.Double) (e : Option ExclusiveBound) :
      Suffix.default ∉ boundSuffix j k b e := by
    intro mem
    have listed := (boundSuffix_sublist j k b e).mem mem
    simp [first.symm, second.symm] at listed
  unfold Keywords.suffixes
  split
  · split
    · simp [option]
    · simp
  · split
    · simp
    · simp [option, bound]
  · split
    · simp
    · simp [option, bound]
  · simp [option]
  · simp

end Zod

end TypedClients
