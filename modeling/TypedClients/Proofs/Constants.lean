import TypedClients.Proofs.ConstantNames
import TypedClients.Proofs.Validators

namespace TypedClients

namespace Zod

inductive Form where
  | options (members : List SchemaRef)
  | parts (members : List SchemaRef)
  | types (names : List TypeName)

end Zod

open Zod

namespace Schema

def form (s : Schema) : Form :=
  if !s.oneOf.isEmpty then .options s.oneOf
  else if !s.anyOf.isEmpty then .options s.anyOf
  else if !s.allOf.isEmpty then .parts s.allOf
  else if !s.enumValues.isEmpty then .types []
  else match s.constValue, s.type with
    | some _, _ => .types []
    | none, some (.single t) => .types [t]
    | none, some (.several ts) => .types (ts.filter (· != .null))
    | none, none =>
      if !s.properties.isEmpty || s.additionalProperties.isSome then .types [.object]
      else if s.items.isSome then .types [.array]
      else .types []

inductive Inside (s : Schema) : TypeName → Step → SchemaRef → Prop where
  | property {i : Nat} {key : String} {c : SchemaRef} (h : s.properties[i]? = some (key, c)) :
      Inside s .object (.property i key) c
  | value {c : SchemaRef} (plain : s.properties = [])
      (h : s.additionalProperties = some (.schema c)) : Inside s .object .value c
  | item {c : SchemaRef} (h : s.items = some c) : Inside s .array .item c

/-- The schemas inside a schema that its validator is made of. -/
inductive Leads (s : Schema) : List Step → SchemaRef → Prop where
  | option {ms : List SchemaRef} {i : Nat} {c : SchemaRef} (form : s.form = .options ms)
      (h : ms[i]? = some c) : Leads s [.option i] c
  | part {ms : List SchemaRef} {i : Nat} {c : SchemaRef} (form : s.form = .parts ms)
      (h : ms[i]? = some c) : Leads s [.part i] c
  | own {ms : List SchemaRef} {i : Nat} {key : String} {c : SchemaRef} (form : s.form = .parts ms)
      (h : s.properties[i]? = some (key, c)) : Leads s [.property i key] c
  | inside {ts : List TypeName} {j : Nat} {t : TypeName} {step : Step} {c : SchemaRef}
      (form : s.form = .types ts) (listed : ts[j]? = some t) (h : s.Inside t step c) :
      Leads s [.type j, step] c

end Schema

namespace Zod

inductive Limits (coerce : CoerceSetting) (s : Schema) : List Step → Suffix → Prop where
  | type {ts : List TypeName} {j : Nat} {t : TypeName} {k : Suffix} (form : s.form = .types ts)
      (listed : ts[j]? = some t) (h : k ∈ s.suffixes coerce t) : Limits coerce s [.type j] k
  | default (h : s.default.isSome) : Limits coerce s [] .default

/-- The places at which the validator of a schema declares constants. References are followed if
they are expanded; `busy` holds the names of the schemas that are being expanded. -/
inductive Hoists (arena : Arena) (coerce : CoerceSetting) (inline : Prop) :
    List String → SchemaRef → List Step → Suffix → Prop where
  | limit {busy : List String} {s : Schema} {steps : List Step} {k : Suffix}
      (h : Limits coerce s steps k) : Hoists arena coerce inline busy (.item s) steps k
  | inside {busy : List String} {s : Schema} {c : SchemaRef} {front rest : List Step} {k : Suffix}
      (leads : s.Leads front c) (h : Hoists arena coerce inline busy c rest k) :
      Hoists arena coerce inline busy (.item s) (front ++ rest) k
  | reference {busy : List String} {path : String} {entry : Option String} {s : Schema}
      {steps : List Step} {k : Suffix} (expands : inline)
      (found : arena.deref busy (.ref path) = .ok (.schema entry s))
      (h : Hoists arena coerce inline (entry.toList ++ busy) (.item s) steps k) :
      Hoists arena coerce inline busy (.ref path) steps k

def HoistsIn (coerce : CoerceSetting) (H : SchemaRef → List Step → Suffix → Prop) (s : Schema)
    (steps : List Step) (k : Suffix) : Prop :=
  Limits coerce s steps k ∨ ∃ front c rest, s.Leads front c ∧ steps = front ++ rest ∧ H c rest k

section

variable {H : SchemaRef → List Step → Suffix → Prop} {sub : Recipe.Answers} {b : Bool}
  {o : Options} {s : Schema} {name : String} {v : Validator}

def Known (H : SchemaRef → List Step → Suffix → Prop) (sub : Recipe.Answers) (s : Schema) : Prop :=
  ∀ b c name required v, s.Holds c → sub b c name required = .ok v →
    Spells (H c) name v.names

def HoistsType (coerce : CoerceSetting) (H : SchemaRef → List Step → Suffix → Prop) (s : Schema)
    (t : TypeName) (steps : List Step) (k : Suffix) : Prop :=
  (steps = [] ∧ k ∈ s.suffixes coerce t) ∨
    ∃ step c rest, s.Inside t step c ∧ steps = step :: rest ∧ H c rest k

section

variable {coerce : CoerceSetting} {steps : List Step} {k : Suffix}

theorem hoistsType_object (filled : s.properties ≠ []) :
    HoistsType coerce H s .object steps k ↔ ∃ i key c rest,
      s.properties[i]? = some (key, c) ∧ steps = .property i key :: rest ∧ H c rest k := by
  constructor
  · rintro (⟨_, mem⟩ | ⟨step, c, rest, inside, rfl, hoists⟩)
    · cases mem
    · cases inside with
      | property h => exact ⟨_, _, c, rest, h, rfl, hoists⟩
      | value plain _ => exact absurd plain filled
  · rintro ⟨i, key, c, rest, listed, rfl, hoists⟩
    exact .inr ⟨.property i key, c, rest, .property listed, rfl, hoists⟩

theorem hoistsType_record (plain : s.properties = []) :
    HoistsType coerce H s .object steps k ↔ ∃ c rest,
      s.additionalProperties = some (.schema c) ∧ steps = .value :: rest ∧ H c rest k := by
  constructor
  · rintro (⟨_, mem⟩ | ⟨step, c, rest, inside, rfl, hoists⟩)
    · cases mem
    · cases inside with
      | property h => simp [plain] at h
      | value _ given => exact ⟨c, rest, given, rfl, hoists⟩
  · rintro ⟨c, rest, given, rfl, hoists⟩
    exact .inr ⟨.value, c, rest, .value plain given, rfl, hoists⟩

theorem hoistsType_array :
    HoistsType coerce H s .array steps k ↔ (∃ c rest, s.items = some c ∧
      steps = .item :: rest ∧ H c rest k) ∨ steps = [] ∧ k ∈ s.suffixes coerce .array := by
  constructor
  · rintro (limit | ⟨step, c, rest, inside, rfl, hoists⟩)
    · exact .inr limit
    · cases inside with
      | item given => exact .inl ⟨c, rest, given, rfl, hoists⟩
  · rintro (⟨c, rest, given, rfl, hoists⟩ | limit)
    · exact .inr ⟨.item, c, rest, .item given, rfl, hoists⟩
    · exact .inl limit

theorem hoistsType_plain {t : TypeName} (not_array : t ≠ .array) (not_object : t ≠ .object) :
    HoistsType coerce H s t steps k ↔ steps = [] ∧ k ∈ s.suffixes coerce t := by
  constructor
  · rintro (limit | ⟨step, c, rest, inside, _⟩)
    · exact limit
    · cases inside with
      | property _ => exact absurd rfl not_object
      | value _ _ => exact absurd rfl not_object
      | item _ => exact absurd rfl not_array
  · exact .inl

end

open Recipe Outcome

theorem forall₂_of_mapM {α β : Type} {R : α → β → Prop} {f : α → Except ValidateError β}
    {as : List α} {bs : List β} (run : as.mapM f = .ok bs)
    (h : ∀ a ∈ as, ∀ b, f a = .ok b → R a b) : List.Forall₂ R as bs := by
  have made := mapM_forall₂ run
  clear run
  induction made with
  | nil => exact .nil
  | cons first _ ih =>
    exact .cons (h _ List.mem_cons_self _ first)
      (ih fun a mem => h a (List.mem_cons_of_mem _ mem))

theorem properties_spell (known : Known H sub s) {fields : List (String × Validator)}
    (run : (s.properties.mapM fun (p : String × SchemaRef) => do
      let v ← validator p.2 (name ++ modelName p.1) (s.required.contains p.1)
      return (p.1, v)).answer sub b = .ok fields) :
    Spells (fun steps k => ∃ i key c rest, s.properties[i]? = some (key, c) ∧
      steps = .property i key :: rest ∧ H c rest k) name
        (fields.map fun f => f.2.names).flatten := by
  rw [answer_mapM] at run
  have made : List.Forall₂ (fun (p : String × SchemaRef) (f : String × Validator) =>
      ∀ i, Spells (H p.2) (name ++ (Step.property i p.1).text) f.2.names)
        s.properties fields := by
    refine forall₂_of_mapM run fun p listed f step i => ?_
    simp only [answer_bind, answer_validator, answer_pure, bind_eq_ok, Except.ok.injEq] at step
    obtain ⟨v, made, rfl⟩ := step
    exact known b p.2 _ _ v (.property listed) made
  have numbered := forall₂_zipIdx made 0
  have all := Spells.many (fun i (p : String × SchemaRef) => .property i p.1)
    (fun i j p q same => (Step.property.inj same).1) (P := fun p => H p.2)
    (List.forall₂_map_right_iff.mpr numbered)
  refine all.congr fun steps k => ?_
  simp only [Prod.exists]

theorem ofObject_spells (known : Known H sub s) (run : (ofObject o s name).answer sub b = .ok v) :
    Spells (HoistsType o.coerce H s .object) name v.names := by
  unfold ofObject at run
  split at run
  · rename_i plain
    have record : ∀ steps k, HoistsType o.coerce H s .object steps k ↔ ∃ c rest,
        s.additionalProperties = some (.schema c) ∧ steps = .value :: rest ∧ H c rest k :=
      fun steps k => hoistsType_record (List.isEmpty_iff.mp plain)
    split at run
    · rename_i closed
      simp only [answer_bind, answer_isStrict, answer_pure, bind_eq_ok, Except.ok.injEq] at run
      obtain ⟨_, _, rfl⟩ := run
      rw [Options.objectOf_names]
      exact .nothing (by simp [record, closed])
    · rename_i c given
      simp only [answer_bind, answer_validator, answer_pure, bind_eq_ok, Except.ok.injEq] at run
      obtain ⟨w, made, rfl⟩ := run
      have own : Spells (H c) (name ++ Step.value.text) w.names :=
        known b c _ _ w (.additional given) made
      exact (own.step .value).congr (by simp [record, given])
    · rename_i closed other
      cases Except.ok.inj run
      refine .nothing fun steps k hoists => ?_
      obtain ⟨c, _, given, _⟩ := (record steps k).mp hoists
      exact other c given
  · rename_i filled
    rw [answer_bind, bind_eq_ok] at run
    obtain ⟨fields, made, run⟩ := run
    simp only [answer_bind, answer_isStrict, answer_pure, bind_eq_ok, Except.ok.injEq] at run
    obtain ⟨_, _, rfl⟩ := run
    rw [Options.objectOf_names]
    exact (properties_spell known made).congr fun steps k =>
      (hoistsType_object (by simpa using filled)).symm

theorem ofArray_spells (known : Known H sub s) (run : (ofArray s name).answer sub b = .ok v) :
    Spells (HoistsType o.coerce H s .array) name v.names := by
  have counts : ∀ item : Validator,
      (((Validator.arrayOf item).callCount "min" (name ++ "MinItems") s.minItems).callCount "max"
        (name ++ "MaxItems") s.maxItems).names =
          item.names ++ (s.suffixes o.coerce .array).map fun k => name ++ k.text := by
    intro item
    have start : (Validator.arrayOf item).names = item.names := rfl
    have min : "MinItems" = Suffix.minItems.text := rfl
    have max : "MaxItems" = Suffix.maxItems.text := rfl
    rw [min, max, Validator.callCount_names, Validator.callCount_names, start]
    simp [Keywords.suffixes]
  obtain ⟨item, inner, rfl⟩ : ∃ item : Validator, Spells (fun steps k => ∃ c rest,
      s.items = some c ∧ steps = .item :: rest ∧ H c rest k) name item.names ∧
        v = ((Validator.arrayOf item).callCount "min" (name ++ "MinItems") s.minItems).callCount
          "max" (name ++ "MaxItems") s.maxItems := by
    unfold ofArray at run
    split at run
    · rename_i c given
      simp only [answer_bind, answer_validator, answer_pure, bind_eq_ok, Except.ok.injEq] at run
      obtain ⟨item, made, rfl⟩ := run
      have own : Spells (H c) (name ++ Step.item.text) item.names :=
        known b c _ _ item (.items given) made
      exact ⟨item, (own.step .item).congr (by simp [given]), rfl⟩
    · rename_i none
      cases Except.ok.inj run
      exact ⟨.ofCall "any", .nothing (by simp [none]), rfl⟩
  rw [counts]
  refine (inner.append (.suffixes (suffixes_nodup _ _ _)) ?_).congr fun steps k =>
    hoistsType_array.symm
  rintro _ k ⟨_, _, _, rfl, _⟩ ⟨same, _⟩
  cases same

theorem ofType_spells {t : TypeName} (known : Known H sub s)
    (run : (ofType o s t name).answer sub b = .ok v) :
    Spells (HoistsType o.coerce H s t) name v.names := by
  have plain : t ≠ .array → t ≠ .object →
      v.names = (s.suffixes o.coerce t).map (fun k => name ++ k.text) →
      Spells (HoistsType o.coerce H s t) name v.names := by
    intro not_array not_object names
    rw [names]
    exact (Spells.suffixes (suffixes_nodup _ _ _)).congr fun steps k =>
      (hoistsType_plain not_array not_object).symm
  cases t with
  | array => exact ofArray_spells known run
  | object => exact ofObject_spells known run
  | string =>
    cases Except.ok.inj run
    exact plain (by decide) (by decide) (o.text_names _ _)
  | number =>
    cases Except.ok.inj run
    exact plain (by decide) (by decide) (o.number_names _ _)
  | integer =>
    cases Except.ok.inj run
    exact plain (by decide) (by decide) (o.number_names _ _)
  | boolean =>
    cases Except.ok.inj run
    exact plain (by decide) (by decide) rfl
  | null =>
    cases Except.ok.inj run
    exact plain (by decide) (by decide) rfl

def HoistsForm (coerce : CoerceSetting) (H : SchemaRef → List Step → Suffix → Prop) (s : Schema) :
    Form → List Step → Suffix → Prop
  | .options ms, steps, k => ∃ i c rest, ms[i]? = some c ∧ steps = .option i :: rest ∧ H c rest k
  | .parts ms, steps, k =>
    (∃ i c rest, ms[i]? = some c ∧ steps = .part i :: rest ∧ H c rest k) ∨
      ∃ i key c rest, s.properties[i]? = some (key, c) ∧ steps = .property i key :: rest ∧
        H c rest k
  | .types ts, steps, k =>
    ∃ j t rest, ts[j]? = some t ∧ steps = .type j :: rest ∧ HoistsType coerce H s t rest k

theorem not_hoistsForm_nil {coerce : CoerceSetting} {form : Form} {k : Suffix} :
    ¬ HoistsForm coerce H s form [] k := by
  cases form <;> simp [HoistsForm]

theorem hoistsIn_iff {coerce : CoerceSetting} {steps : List Step} {k : Suffix} :
    HoistsIn coerce H s steps k ↔ HoistsForm coerce H s s.form steps k ∨
      steps = [] ∧ k ∈ optionSuffix .default s.default := by
  constructor
  · rintro (limit | ⟨front, c, rest, leads, rfl, hoists⟩)
    · cases limit with
      | @type ts j t k form listed h =>
        rw [form]
        exact .inl ⟨j, t, [], listed, rfl, .inl ⟨rfl, h⟩⟩
      | default h =>
        obtain ⟨d, given⟩ := Option.isSome_iff_exists.mp h
        exact .inr ⟨rfl, by simp [optionSuffix, given]⟩
    · cases leads with
      | option form h =>
        rw [form]
        exact .inl ⟨_, c, rest, h, rfl, hoists⟩
      | part form h =>
        rw [form]
        exact .inl (.inl ⟨_, c, rest, h, rfl, hoists⟩)
      | own form h =>
        rw [form]
        exact .inl (.inr ⟨_, _, c, rest, h, rfl, hoists⟩)
      | inside form listed h =>
        rw [form]
        exact .inl ⟨_, _, _, listed, rfl, .inr ⟨_, c, rest, h, rfl, hoists⟩⟩
  · rintro (inner | ⟨rfl, mem⟩)
    · cases form : s.form with
      | options ms =>
        rw [form] at inner
        obtain ⟨i, c, rest, listed, rfl, hoists⟩ := inner
        exact .inr ⟨[.option i], c, rest, .option form listed, rfl, hoists⟩
      | parts ms =>
        rw [form] at inner
        rcases inner with
          ⟨i, c, rest, listed, rfl, hoists⟩ | ⟨i, key, c, rest, listed, rfl, hoists⟩
        · exact .inr ⟨[.part i], c, rest, .part form listed, rfl, hoists⟩
        · exact .inr ⟨[.property i key], c, rest, .own form listed, rfl, hoists⟩
      | types ts =>
        rw [form] at inner
        obtain ⟨j, t, rest, listed, rfl, ⟨rfl, mem⟩ | ⟨step, c, tail, inside, rfl, hoists⟩⟩ := inner
        · exact .inl (.type form listed mem)
        · exact .inr ⟨[.type j, step], c, tail, .inside form listed inside, rfl, hoists⟩
    · cases given : s.default with
      | none => simp [optionSuffix, given] at mem
      | some d =>
        rw [given] at mem
        cases List.mem_singleton.mp mem
        exact .inl (.default (by simp [given]))

theorem members_spell {label : Nat → String} {step : Nat → Step} {members : List SchemaRef}
    {vs : List Validator} (known : Known H sub s) (held : ∀ c ∈ members, s.Holds c)
    (labelled : ∀ i, label i = name ++ (step i).text) (apart : ∀ i j, step i = step j → i = j)
    (run : (ofMembers label members).answer sub b = .ok vs) :
    Spells (fun steps k => ∃ i c rest, members[i]? = some c ∧ steps = step i :: rest ∧ H c rest k)
      name (vs.map Validator.names).flatten := by
  unfold ofMembers at run
  rw [answer_mapM] at run
  have made : List.Forall₂ (fun (m : SchemaRef × Nat) v =>
      Spells (H m.1) (name ++ (step m.2).text) v.names) (members.zipIdx 0) vs := by
    refine forall₂_of_mapM run fun m listed v made => ?_
    rw [answer_validator, labelled] at made
    exact known b m.1 _ _ v (held m.1 (List.fst_mem_of_mem_zipIdx listed)) made
  have all := Spells.many (fun i _ => step i) (fun i j _ _ same => apart i j same)
    (List.forall₂_map_right_iff.mpr made)
  exact all

theorem types_spell {ts : List TypeName} {nss : List (List String)} {coerce : CoerceSetting}
    (h : List.Forall₂ (fun t ns => Spells (HoistsType coerce H s t) name ns) ts nss) :
    Spells (HoistsForm coerce H s (.types ts)) name nss.flatten := by
  have unnamed : ∀ i, name ++ (Step.type i).text = name := fun i => String.append_empty
  have numbered : List.Forall₂ (fun (t : TypeName × Nat) ns =>
      Spells (HoistsType coerce H s t.1) (name ++ (Step.type t.2).text) ns) (ts.zipIdx 0) nss := by
    refine forall₂_zipIdx (R := fun t i ns => Spells (HoistsType coerce H s t)
      (name ++ (Step.type i).text) ns) (h.imp fun t ns own i => ?_) 0
    rw [unnamed]
    exact own
  have all := Spells.many (fun i _ => .type i) (fun i j _ _ same => Step.type.inj same) numbered
  exact all

theorem parts_spell (known : Known H sub s) {vs : List Validator}
    (run : (do
      let parts ← ofMembers (fun i => name ++ "Part" ++ Decimal.digitText (i + 1)) s.allOf
      let own ← if s.properties.isEmpty then pure [] else do
        let v ← ofObject o s name
        pure [v]
      return parts ++ own : Recipe (List Validator)).answer sub b = .ok vs) :
    Spells (HoistsForm o.coerce H s (.parts s.allOf)) name (Validator.intersection vs).names := by
  have label (i : Nat) : name ++ "Part" ++ Decimal.digitText (i + 1) = name ++ (Step.part i).text :=
    String.append_assoc
  rw [answer_bind, bind_eq_ok] at run
  obtain ⟨parts, members, run⟩ := run
  obtain ⟨own, rfl, second⟩ : ∃ own : List Validator, vs = parts ++ own ∧
      Spells (fun steps k => ∃ i key c rest, s.properties[i]? = some (key, c) ∧
        steps = .property i key :: rest ∧ H c rest k) name (own.map Validator.names).flatten := by
    split at run
    · rename_i plain
      cases Except.ok.inj run
      exact ⟨[], rfl, .nothing (by simp [List.isEmpty_iff.mp plain])⟩
    · rename_i filled
      simp only [answer_bind, answer_pure, bind_eq_ok, Except.ok.injEq] at run
      obtain ⟨w, made, _, rfl, rfl⟩ := run
      refine ⟨[w], rfl, ?_⟩
      rw [List.map_singleton, List.flatten_singleton]
      exact (ofObject_spells known made).congr fun steps k =>
        hoistsType_object (by simpa using filled)
  have first := members_spell known (fun c => .allOf) label (fun i j => Step.part.inj) members
  rw [Validator.intersection_names, List.map_append, List.flatten_append]
  refine first.append second ?_
  rintro _ k ⟨i, _, _, _, rfl, _⟩ ⟨j, _, _, _, _, same, _⟩
  cases same

theorem options_spell (known : Known H sub s) {members : List SchemaRef}
    (held : ∀ c ∈ members, s.Holds c)
    (run : (do return .union (← ofMembers
      (fun i => name ++ "Option" ++ Decimal.digitText (i + 1)) members) :
        Recipe Validator).answer sub b = .ok v) :
    Spells (HoistsForm o.coerce H s (.options members)) name v.names := by
  have label (i : Nat) : name ++ "Option" ++ Decimal.digitText (i + 1) =
      name ++ (Step.option i).text := String.append_assoc
  simp only [answer_bind, answer_pure, bind_eq_ok, Except.ok.injEq] at run
  obtain ⟨vs, made, rfl⟩ := run
  rw [Validator.union_names]
  exact members_spell known held label (fun i j => Step.option.inj) made

theorem unhoisted_spells {coerce : CoerceSetting} (none : v.names = []) :
    Spells (HoistsForm coerce H s (.types [])) name v.names := by
  rw [none]
  exact types_spell .nil

theorem single_spells {t : TypeName} (known : Known H sub s)
    (run : (ofType o s t name).answer sub b = .ok v) :
    Spells (HoistsForm o.coerce H s (.types [t])) name v.names := by
  have own := ofType_spells known run
  have all := types_spell (.cons own .nil)
  rwa [List.flatten_singleton] at all

theorem several_spells {ts : List TypeName} (known : Known H sub s)
    (run : (if (ts.filter (· != .null)).isEmpty then return .ofCall "null"
      else do return .union (← (ts.filter (· != .null)).mapM fun t => ofType o s t name) :
        Recipe Validator).answer sub b = .ok v) :
    Spells (HoistsForm o.coerce H s (.types (ts.filter (· != .null)))) name v.names := by
  split at run
  · rename_i none
    rw [List.isEmpty_iff.mp none]
    cases Except.ok.inj run
    exact unhoisted_spells rfl
  · simp only [answer_bind, answer_mapM, answer_pure, bind_eq_ok, Except.ok.injEq] at run
    obtain ⟨vs, made, rfl⟩ := run
    have own := forall₂_of_mapM made fun t _ w run => ofType_spells known run
    rw [Validator.union_names]
    apply types_spell
    rw [List.forall₂_map_right_iff]
    exact own

theorem implied_spells (known : Known H sub s)
    (run : (if !s.properties.isEmpty || s.additionalProperties.isSome then ofObject o s name
      else if s.items.isSome then ofArray s name
      else return .ofCall "any" : Recipe Validator).answer sub b = .ok v) :
    Spells (HoistsForm o.coerce H s
      (if !s.properties.isEmpty || s.additionalProperties.isSome then .types [.object]
        else if s.items.isSome then .types [.array]
        else .types [])) name v.names := by
  split at run
  · rename_i object
    rw [if_pos object]
    exact single_spells (t := .object) known run
  rename_i object
  rw [if_neg object]
  split at run
  · rename_i array
    rw [if_pos array]
    exact single_spells (t := .array) known run
  · rename_i array
    rw [if_neg array]
    cases Except.ok.inj run
    exact unhoisted_spells rfl

theorem ofBase_spells (known : Known H sub s) (run : (ofBase o s name).answer sub b = .ok v) :
    Spells (HoistsForm o.coerce H s s.form) name v.names := by
  unfold ofBase at run
  unfold Schema.form
  dsimp only at run
  split at run
  · rename_i filled
    rw [if_pos filled]
    exact options_spell known (fun c => .oneOf) run
  rename_i one
  rw [if_neg one]
  split at run
  · rename_i filled
    rw [if_pos filled]
    exact options_spell known (fun c => .anyOf) run
  rename_i any
  rw [if_neg any]
  split at run
  · rename_i filled
    rw [if_pos filled]
    rw [answer_bind, answer_lenient, bind_eq_ok] at run
    obtain ⟨vs, made, run⟩ := run
    cases Except.ok.inj run
    exact parts_spell known made
  rename_i all
  rw [if_neg all]
  split at run
  · rename_i filled
    rw [if_pos filled]
    cases Except.ok.inj run
    exact unhoisted_spells (Validator.enumeration_names _)
  rename_i enum
  rw [if_neg enum]
  cases value : s.constValue with
  | some constant =>
    simp only [value] at run ⊢
    cases Except.ok.inj run
    exact unhoisted_spells rfl
  | none =>
    cases type : s.type with
    | none =>
      simp only [value, type] at run ⊢
      exact implied_spells known run
    | some names =>
      cases names with
      | single t =>
        simp only [value, type] at run ⊢
        exact single_spells known run
      | several ts =>
        simp only [value, type] at run ⊢
        exact several_spells known run

theorem ofSchema_spells (known : Known H sub s) {required : Bool}
    (run : (ofSchema o s name required).answer sub b = .ok v) :
    Spells (HoistsIn o.coerce H s) name v.names := by
  unfold ofSchema at run
  simp only [answer_bind, answer_pure, bind_eq_ok, Except.ok.injEq] at run
  obtain ⟨w, base, rfl⟩ := run
  have distinct : (optionSuffix Suffix.default s.default).Nodup :=
    (optionSuffix_sublist _ _).nodup (List.nodup_singleton _)
  rw [Validator.finish_names]
  refine ((ofBase_spells known base).append (.suffixes distinct) ?_).congr fun steps k =>
    hoistsIn_iff.symm
  rintro _ k form ⟨rfl, _⟩
  exact not_hoistsForm_nil form

end

variable {arena : Arena} {coerce : CoerceSetting} {inline : Prop} {busy : List String}

theorem hoists_item {s : Schema} {steps : List Step} {k : Suffix} :
    Hoists arena coerce inline busy (.item s) steps k ↔
      HoistsIn coerce (Hoists arena coerce inline busy) s steps k := by
  constructor
  · intro hoists
    cases hoists with
    | limit h => exact .inl h
    | inside leads h => exact .inr ⟨_, _, _, leads, rfl, h⟩
  · rintro (limit | ⟨front, c, rest, leads, rfl, hoists⟩)
    · exact .limit limit
    · exact .inside leads hoists

namespace Scope

open Outcome

theorem namedModel_names {g : Scope} {current : Option String} {sharedFile : Bool} {path : String}
    {v : Validator} (h : g.namedModel current sharedFile path = .ok v) : v.names = [] := by
  obtain ⟨_, _, rfl | ⟨_, rfl⟩⟩ := namedModel_eq_ok h <;> rfl

/-- A validator declares a constant for each of the places that its schema gives one, and no
others. -/
theorem validate_spells {g : Scope} {r : SchemaRef} {name : String} {required : Bool}
    {v : Validator} (run : g.validate r name required = .ok v) :
    Spells (Hoists g.arena g.options.coerce (g.refs = .inline) g.busy r) name v.names := by
  obtain ⟨arena, options, refs, busy⟩ := g
  -- Inner schemas are smaller; an expanded reference leaves one name fewer to expand.
  induction busy, r using arena.expansion_induction generalizing options name required v with
  | item busy s ih =>
    rw [validate, validateSchema_eq] at run
    refine (ofSchema_spells ?_ run).congr fun steps k => hoists_item.symm
    -- Parts of an intersection are made with other options, which hoist the same.
    intro b c name required v held run
    exact ih c held { options with strict := b } run
  | ref busy path ih =>
    cases refs with
    | named current sharedFile =>
      rw [validate_ref rfl] at run
      obtain ⟨w, named, rfl⟩ := map_eq_ok.mp run
      have names : (w.optionalUnless required).names = w.names := by
        cases required <;> rfl
      rw [names, namedModel_names named]
      refine .nothing fun steps k hoists => ?_
      cases hoists with
      | reference expands _ _ => cases expands
    | inline =>
      rw [validate_expanded rfl] at run
      cases found : arena.deref busy (.ref path) with
      | error e =>
        rw [found] at run
        cases run
      | ok d =>
        rw [found] at run
        cases d with
        | cycle n =>
          cases run
          have names : ((Validator.ofCall "any").optionalUnless required).names = [] := by
            cases required <;> rfl
          rw [names]
          refine .nothing fun steps k hoists => ?_
          cases hoists with
          | reference _ expanded _ =>
            rw [found] at expanded
            cases expanded
        | schema entry s =>
          rcases Arena.derefFrom_schema found with ⟨_, none, _⟩ | ⟨n, rfl, known, fresh⟩
          · cases none
          have expanded : validate ⟨arena, options, .inline, n :: busy⟩ (.item s) name required =
              .ok v := by
            rw [validate]
            exact run
          have deeper : Spells (Hoists arena options.coerce (RefStyle.inline = .inline) (n :: busy)
              (.item s)) name v.names := ih n s known fresh options expanded
          refine deeper.congr fun steps k => ?_
          constructor
          · exact .reference rfl found
          · intro hoists
            cases hoists with
            | reference _ expanded h =>
              rw [found] at expanded
              cases expanded
              exact h

theorem validateFields_spells {g : Scope} {params : List Param} {name : String} {v : Validator}
    (run : g.validateFields (params.map fun p => (p.wire, p.schema, p.required)) name = .ok v) :
    Spells (fun steps k => ∃ i p rest, params[i]? = some p ∧ steps = .property i p.wire :: rest ∧
      ∃ c, p.schema = some c ∧ Hoists g.arena g.options.coerce (g.refs = .inline) g.busy c rest k)
        name v.names := by
  unfold validateFields at run
  obtain ⟨fields, made, rfl⟩ := map_eq_ok.mp run
  have named : List.Forall₂ (fun (p : Param) (f : String × Validator) => ∀ i,
      Spells (fun steps k => ∃ c, p.schema = some c ∧
        Hoists g.arena g.options.coerce (g.refs = .inline) g.busy c steps k)
          (name ++ (Step.property i p.wire).text) f.2.names) params fields := by
    rw [List.mapM_map] at made
    refine forall₂_of_mapM made fun p _ f step i => ?_
    rw [Function.comp_apply] at step
    cases given : p.schema with
    | none =>
      simp only [given, bind_eq_ok, pure_eq_ok] at step
      obtain ⟨w, rfl, rfl⟩ := step
      have names : ((Validator.ofCall "any").optionalUnless p.required).names = [] := by
        cases p.required <;> rfl
      rw [names]
      exact .nothing (by simp)
    | some c =>
      simp only [given, bind_eq_ok, pure_eq_ok] at step
      obtain ⟨w, run, rfl⟩ := step
      exact (validate_spells run).congr (by simp)
  rw [Options.objectOf_names]
  refine Spells.many (fun i (p : Param) => .property i p.wire)
    (fun i j p q same => (Step.property.inj same).1) ?_
  rw [List.forall₂_map_right_iff]
  exact forall₂_zipIdx named 0

end Scope

inductive Subject.Hoists (arena : Arena) (coerce : CoerceSetting) (inline : Prop) :
    Subject → List Step → Suffix → Prop where
  | field {params : List Param} {i : Nat} {p : Param} {c : SchemaRef} {rest : List Step}
      {k : Suffix} (listed : params[i]? = some p) (given : p.schema = some c)
      (h : Zod.Hoists arena coerce inline [] c rest k) :
      Subject.Hoists arena coerce inline (.fields params) (.property i p.wire :: rest) k
  | schema {s : SchemaRef} {steps : List Step} {k : Suffix}
      (h : Zod.Hoists arena coerce inline [] s steps k) :
      Subject.Hoists arena coerce inline (.schema s) steps k

def Task.Hoists (t : Task) (arena : Arena) (config : ZodConfig) (refs : RefStyle) :
    List Step → Suffix → Prop :=
  t.subject.Hoists arena (Options.ofConfig config t.site).coerce (refs = .inline)

theorem Task.validator_spells {t : Task} {config : ZodConfig} {refs : RefStyle} {v : Validator}
    (run : t.validator arena config refs = .ok v) :
    Spells (t.Hoists arena config refs) t.name v.names := by
  obtain ⟨site, name, subject⟩ := t
  cases subject with
  | fields params =>
    refine (Scope.validateFields_spells run).congr fun steps k => ?_
    constructor
    · rintro ⟨i, p, rest, listed, rfl, c, given, hoists⟩
      exact .field listed given hoists
    · intro hoists
      cases hoists with
      | field listed given h => exact ⟨_, _, _, listed, rfl, _, given, h⟩
  | schema s =>
    refine (Scope.validate_spells run).congr fun steps k => ?_
    constructor
    · exact .schema
    · intro hoists
      cases hoists with
      | schema h => exact h

end Zod

end TypedClients
