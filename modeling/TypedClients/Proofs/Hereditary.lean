import TypedClients.Proofs.ConstantNames
import TypedClients.Proofs.Recipe

namespace TypedClients.Zod

/-- A property that every way of building a validator hands on from the validators that go into
it. -/
structure Validator.Hereditary (P : Validator → Prop) : Prop where
  nothing : P .start
  ofCall (function : String) : P (.ofCall function)
  ofSource (function text : String) : P (.ofSource function text)
  call {v : Validator} (h : P v) (function : String) : P (v.call function .none)
  callConstant {v : Validator} (h : P v) (function name : String) (value : ConstantValue) :
    P (v.callConstant function name value)
  alternatives {vs : List Validator} (h : ∀ v ∈ vs, P v) :
    P ⟨.call .start "union" (.array (vs.map emptied)), vs.flatMap (·.constants)⟩
  and {v w : Validator} (first : P v) (second : P w) : P (v.and w)
  arrayOf {v : Validator} (h : P v) : P (.arrayOf v)
  recordOf {v : Validator} (h : P v) : P (.recordOf v)
  fields {fs : List (String × Validator)} (h : ∀ f ∈ fs, P f.2) (function : String) :
    P ⟨.call .start function (.object (fs.map fun f => (f.1, f.2.emptied))),
      fs.flatMap fun f => f.2.constants⟩

namespace Validator.Hereditary

variable {P : Validator → Prop} {v : Validator}

theorem optionalUnless (keeps : Hereditary P) (h : P v) (required : Bool) :
    P (v.optionalUnless required) := by
  unfold Validator.optionalUnless
  split
  · exact h
  · exact keeps.call h _

theorem callBound (keeps : Hereditary P) (h : P v) (name plain exclusive suffix : String)
    (bound : Option Decimal.Double) (exclusiveBound : Option ExclusiveBound) :
    P (v.callBound name plain exclusive suffix bound exclusiveBound) := by
  unfold Validator.callBound
  split
  · exact keeps.callConstant h ..
  · exact keeps.callConstant h ..
  · exact keeps.callConstant h ..
  · exact h

theorem callCount (keeps : Hereditary P) (h : P v) (function name : String)
    (count : Option Nat) : P (v.callCount function name count) := by
  unfold Validator.callCount
  split
  · exact keeps.callConstant h ..
  · exact h

theorem finish (keeps : Hereditary P) (h : P v) (s : Keywords) (name : String)
    (required : Bool) : P (v.finish s name required) :=
  Validator.finish_keeps (P := P) (fun _ function _ own => keeps.call own function)
    (fun _ name value own => keeps.callConstant own "default" name value) h s name required

theorem union (keeps : Hereditary P) {vs : List Validator} (h : ∀ v ∈ vs, P v) :
    P (Validator.union vs) := by
  unfold Validator.union
  split
  · exact h _ List.mem_cons_self
  · rw [adoptAll_eq]
    exact keeps.alternatives h

theorem intersection (keeps : Hereditary P) {vs : List Validator} (h : ∀ v ∈ vs, P v) :
    P (Validator.intersection vs) := by
  cases vs with
  | nil => exact keeps.nothing
  | cons v rest =>
    have first : P ⟨v.chain, v.constants⟩ := by
      cases v
      exact h _ List.mem_cons_self
    -- The fold starts from the first part, so the induction is about any validator built so far.
    suffices grown : ∀ acc : Validator, P acc → P (rest.foldl Validator.and acc) from grown _ first
    have later : ∀ p ∈ rest, P p := fun p listed => h p (List.mem_cons_of_mem _ listed)
    clear h
    induction rest with
    | nil => exact fun _ known => known
    | cons p rest ih =>
      intro acc known
      apply ih fun q listed => later q (List.mem_cons_of_mem _ listed)
      exact keeps.and known (later p List.mem_cons_self)

theorem enumeration (keeps : Hereditary P) (values : List Json) : P (.enumeration values) := by
  unfold Validator.enumeration
  dsimp only
  split
  · exact keeps.ofCall _
  · split
    · exact keeps.ofSource ..
    · apply keeps.union
      intro v listed
      obtain ⟨value, _, rfl⟩ := List.mem_map.mp listed
      exact keeps.ofSource ..

theorem objectOf (keeps : Hereditary P) {fields : List (String × Validator)} (o : Options)
    (h : ∀ f ∈ fields, P f.2) : P (o.objectOf fields) := by
  have named : (fields.map Prod.fst).zip ((fields.map Prod.snd).map emptied) =
      fields.map fun f => (f.1, f.2.emptied) := by
    rw [List.map_map, List.zip_map']
    rfl
  unfold Options.objectOf
  rw [adoptAll_eq, List.flatMap_map]
  dsimp only
  rw [named]
  split
  · exact keeps.call (keeps.fields h "object") "strict"
  · exact keeps.fields h "strictObject"
  · exact keeps.fields h "object"

theorem textFormat (keeps : Hereditary P) (o : Options) (format : Option String) :
    P (o.textFormat format).1 := by
  have check : ∀ method standalone, P (o.textCheck method standalone) := by
    intro method standalone
    unfold Options.textCheck
    split
    · exact keeps.call (keeps.ofCall _) _
    · exact keeps.ofCall _
  unfold Options.textFormat
  split
  · exact keeps.ofSource ..
  · split
    · exact keeps.ofCall _
    · exact check _ _
  · split
    · exact keeps.ofCall _
    · exact check _ _
  all_goals first | exact check _ _ | exact keeps.ofCall _

theorem text (keeps : Hereditary P) (o : Options) (s : Keywords) (name : String) :
    P (o.text s name) := by
  have format := keeps.textFormat o s.format
  unfold Options.text
  dsimp only
  split
  · have counted := keeps.callCount (keeps.callCount format "min" (name ++ "MinLength") s.minLength)
      "max" (name ++ "MaxLength") s.maxLength
    split
    · exact keeps.callConstant counted ..
    · exact counted
  · exact format

theorem number (keeps : Hereditary P) (o : Options) (s : Keywords) (name : String) :
    P (o.number s name) := by
  unfold Options.number
  split
  · exact keeps.ofCall _
  · have start : P (o.coerced "number" .number) := keeps.ofCall _
    have bounded := keeps.callBound (keeps.callBound start name "min" "gt" "Min" s.minimum
      s.exclusiveMinimum) name "max" "lt" "Max" s.maximum s.exclusiveMaximum
    dsimp only
    split
    · exact keeps.callConstant bounded ..
    · exact bounded

end Validator.Hereditary

namespace Recipe

open Validator (Hereditary)

variable {P : Validator → Prop}

theorem Sound.pure {α : Type} {Ask : SchemaRef → Prop} {P : Validator → Prop} {Q : α → Prop} {a : α}
    (h : Q a) : (Pure.pure a : Recipe α).Sound Ask P Q := h

theorem ofObject_sound (keeps : Hereditary P) (o : Options) (s : Schema) (name : String) :
    (ofObject o s name).Sound s.Holds P P := by
  unfold ofObject
  split
  · split
    · apply Sound.isStrict.bind
      intro strict _
      exact .pure (keeps.objectOf _ fun f none => by cases none)
    · rename_i a given
      apply (Sound.validator (.additional given) (name ++ "Value") true).bind
      intro v known
      exact .pure (keeps.recordOf known)
    · exact .pure (keeps.recordOf (keeps.ofCall _))
  · have fields : (s.properties.mapM fun (p : String × SchemaRef) => do
        let v ← validator p.2 (name ++ modelName p.1) (s.required.contains p.1)
        return (p.1, v)).Sound s.Holds P fun fields => ∀ f ∈ fields, P f.2 := by
      apply Sound.mapM
      intro p listed
      apply (Sound.validator (.property listed) _ _).bind
      intro v known
      exact .pure known
    apply fields.bind
    intro fields known
    apply Sound.isStrict.bind
    intro strict _
    exact .pure (keeps.objectOf _ known)

theorem ofArray_sound (keeps : Hereditary P) (s : Schema) (name : String) :
    (ofArray s name).Sound s.Holds P P := by
  have counted : ∀ item : Validator, P item →
      P (((Validator.arrayOf item).callCount "min" (name ++ "MinItems") s.minItems).callCount "max"
        (name ++ "MaxItems") s.maxItems) := by
    intro item known
    exact keeps.callCount (keeps.callCount (keeps.arrayOf known) ..) ..
  unfold ofArray
  split
  · rename_i i given
    apply (Sound.validator (.items given) (name ++ "Item") true).bind
    intro item known
    exact .pure (counted item known)
  · exact .pure (counted _ (keeps.ofCall _))

theorem ofType_sound (keeps : Hereditary P) (o : Options) (s : Schema) (t : TypeName)
    (name : String) : (ofType o s t name).Sound s.Holds P P := by
  cases t with
  | string => exact .pure (keeps.text _ _ _)
  | number => exact .pure (keeps.number _ _ _)
  | integer => exact .pure (keeps.number _ _ _)
  | boolean => exact .pure (keeps.ofCall _)
  | null => exact .pure (keeps.ofCall _)
  | array => exact ofArray_sound keeps s name
  | object => exact ofObject_sound keeps o s name

theorem ofMembers_sound {s : Schema} {members : List SchemaRef} (label : Nat → String)
    (held : ∀ c ∈ members, s.Holds c) :
    (ofMembers label members).Sound s.Holds P fun vs => ∀ v ∈ vs, P v := by
  apply Sound.mapM
  intro m listed
  exact .validator (held m.1 (List.fst_mem_of_mem_zipIdx listed)) _ _

theorem ofBase_sound (keeps : Hereditary P) (o : Options) (s : Schema) (name : String) :
    (ofBase o s name).Sound s.Holds P P := by
  unfold ofBase
  dsimp only
  split
  · apply (ofMembers_sound _ fun _ => .oneOf).bind
    intro vs known
    exact .pure (keeps.union known)
  split
  · apply (ofMembers_sound _ fun _ => .anyOf).bind
    intro vs known
    exact .pure (keeps.union known)
  split
  · apply Sound.bind (Q := fun vs => ∀ v ∈ vs, P v)
    · apply Sound.lenient
      apply (ofMembers_sound _ fun _ => .allOf).bind
      intro parts known
      split
      · exact .pure fun v listed => known v (List.append_nil parts ▸ listed)
      · apply (ofObject_sound keeps o s name).bind
        intro object own
        refine .pure fun v listed => ?_
        rcases List.mem_append.mp listed with listed | last
        · exact known v listed
        · exact List.mem_singleton.mp last ▸ own
    · intro parts known
      exact .pure (keeps.intersection known)
  split
  · exact .pure (keeps.enumeration _)
  split
  · exact .pure (keeps.ofSource ..)
  · exact ofType_sound keeps o s _ name
  · split
    · exact .pure (keeps.ofCall _)
    · apply (Sound.mapM fun t _ => ofType_sound keeps o s t name).bind
      intro vs known
      exact .pure (keeps.union known)
  · split
    · exact ofObject_sound keeps o s name
    split
    · exact ofArray_sound keeps s name
    · exact .pure (keeps.ofCall _)

theorem ofSchema_sound (keeps : Hereditary P) (o : Options) (s : Schema) (name : String)
    (required : Bool) : (ofSchema o s name required).Sound s.Holds P P := by
  apply (ofBase_sound keeps o s name).bind
  intro v known
  exact .pure (keeps.finish known ..)

theorem ofSchema_asks (o : Options) (s : Schema) (name : String) (required : Bool) :
    (ofSchema o s name required).Sound s.Holds (fun _ => True) fun _ => True :=
  ofSchema_sound
    { nothing := trivial
      ofCall := fun _ => trivial
      ofSource := fun _ _ => trivial
      call := fun _ _ => trivial
      callConstant := fun _ _ _ _ => trivial
      alternatives := fun _ => trivial
      and := fun _ _ => trivial
      arrayOf := fun _ => trivial
      recordOf := fun _ => trivial
      fields := fun _ _ => trivial } o s name required

theorem ofSchema_congr {sub other : Answers} {b : Bool} (o : Options) (s : Schema) (name : String)
    (required : Bool) (same : ∀ b c name required, s.Holds c →
      sub b c name required = other b c name required) :
    (ofSchema o s name required).answer sub b = (ofSchema o s name required).answer other b :=
  (ofSchema_asks o s name required).answer_congr (fun _ => trivial) same

end Recipe

end TypedClients.Zod
