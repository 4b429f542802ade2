import TypedClients.Proofs.Outcome
import TypedClients.Proofs.Surfaces
import TypedClients.Zod.Validate

namespace TypedClients.Zod

/-- A validator in the making: it asks for the validators of other schemas and for strictness, and
goes on with what it is told. -/
inductive Recipe : Type → Type 1 where
  | done {α : Type} (a : α) : Recipe α
  | part {α : Type} (c : SchemaRef) (name : String) (required : Bool)
      (next : Validator → Recipe α) : Recipe α
  | strict {α : Type} (next : Bool → Recipe α) : Recipe α
  | leniently {α : Type} (body : Recipe (List Validator)) (next : List Validator → Recipe α) :
      Recipe α

namespace Recipe

def andThen {α β : Type} : Recipe α → (α → Recipe β) → Recipe β
  | .done a, k => k a
  | .part c name required next, k => .part c name required fun v => (next v).andThen k
  | .strict next, k => .strict fun b => (next b).andThen k
  | .leniently body next, k => .leniently body fun vs => (next vs).andThen k

instance : Monad Recipe where
  pure := done
  bind := andThen

theorem andThen_done {α : Type} (x : Recipe α) : x.andThen done = x := by
  induction x with
  | done a => rfl
  | part c name required next ih => exact congrArg _ (funext ih)
  | strict next ih => exact congrArg _ (funext ih)
  | leniently body next _ ih => exact congrArg _ (funext ih)

theorem andThen_assoc {α β γ : Type} (x : Recipe α) (k : α → Recipe β) (l : β → Recipe γ) :
    (x.andThen k).andThen l = x.andThen fun a => (k a).andThen l := by
  induction x with
  | done a => rfl
  | part c name required next ih => exact congrArg _ (funext fun v => ih v k)
  | strict next ih => exact congrArg _ (funext fun b => ih b k)
  | leniently body next _ ih => exact congrArg _ (funext fun vs => ih vs k)

instance : LawfulMonad Recipe :=
  LawfulMonad.mk' Recipe andThen_done (fun _ _ => rfl) andThen_assoc

def validator (c : SchemaRef) (name : String) (required : Bool) : Recipe Validator :=
  .part c name required .done

def isStrict : Recipe Bool := .strict .done

def lenient (body : Recipe (List Validator)) : Recipe (List Validator) := .leniently body .done

abbrev Answers := Bool → SchemaRef → String → Bool → Except ValidateError Validator

def answer (sub : Answers) : {α : Type} → Recipe α → Bool → Except ValidateError α
  | _, .done a, _ => .ok a
  | _, .part c name required next, b => do
    let v ← sub b c name required
    (next v).answer sub b
  | _, .strict next, b => (next b).answer sub b
  | _, .leniently body next, b => do
    let vs ← body.answer sub false
    (next vs).answer sub b

section

variable {α β : Type} {sub : Answers} {b : Bool}

@[simp] theorem answer_pure (a : α) : (pure a : Recipe α).answer sub b = .ok a := rfl

@[simp] theorem answer_bind (x : Recipe α) (k : α → Recipe β) :
    (x >>= k).answer sub b = x.answer sub b >>= fun a => (k a).answer sub b := by
  show (x.andThen k).answer sub b = _
  induction x generalizing b with
  | done a => rfl
  | part c name required next ih =>
    simp only [andThen, answer, ih]
    cases sub b c name required <;> rfl
  | strict next ih => exact ih b k
  | leniently body next _ ih =>
    simp only [andThen, answer, ih]
    cases body.answer sub false <;> rfl

@[simp] theorem answer_map (f : α → β) (x : Recipe α) :
    (f <$> x).answer sub b = f <$> x.answer sub b := by
  rw [map_eq_pure_bind, answer_bind, map_eq_pure_bind]
  rfl

@[simp] theorem answer_mapM (f : α → Recipe β) (as : List α) :
    (as.mapM f).answer sub b = as.mapM fun a => (f a).answer sub b := by
  induction as with
  | nil => rfl
  | cons a rest ih =>
    rw [List.mapM_cons, List.mapM_cons, answer_bind]
    simp only [answer_bind, ih]
    rfl

@[simp] theorem answer_validator (c : SchemaRef) (name : String) (required : Bool) :
    (validator c name required).answer sub b = sub b c name required := by
  show (sub b c name required >>= fun v => .ok v) = _
  cases sub b c name required <;> rfl

@[simp] theorem answer_isStrict : isStrict.answer sub b = .ok b := rfl

@[simp] theorem answer_lenient (body : Recipe (List Validator)) :
    body.lenient.answer sub b = body.answer sub false := by
  show (body.answer sub false >>= fun vs => .ok vs) = _
  cases body.answer sub false <;> rfl

end

/-- The recipe asks for schemas in `Ask` only. Told validators in `P`, it comes to a result in
`Q`. -/
def Sound (Ask : SchemaRef → Prop) (P : Validator → Prop) :
    {α : Type} → Recipe α → (α → Prop) → Prop
  | _, .done a, Q => Q a
  | _, .part c _ _ next, Q => Ask c ∧ ∀ v, P v → (next v).Sound Ask P Q
  | _, .strict next, Q => ∀ b, (next b).Sound Ask P Q
  | _, .leniently body next, Q => body.Sound Ask P (fun vs => ∀ v ∈ vs, P v) ∧
      ∀ vs : List Validator, (∀ v ∈ vs, P v) → (next vs).Sound Ask P Q

namespace Sound

variable {α β : Type} {Ask : SchemaRef → Prop} {P : Validator → Prop} {Q : α → Prop}
  {R : β → Prop} {sub : Answers} {b : Bool}

theorem bind {x : Recipe α} {k : α → Recipe β} (h : x.Sound Ask P Q)
    (then_ : ∀ a, Q a → (k a).Sound Ask P R) : (x >>= k).Sound Ask P R := by
  show (x.andThen k).Sound Ask P R
  induction x with
  | done a => exact then_ a h
  | part c name required next ih => exact ⟨h.1, fun v known => ih v (h.2 v known) then_⟩
  | strict next ih => exact fun b => ih b (h b) then_
  | leniently body next _ ih => exact ⟨h.1, fun vs known => ih vs (h.2 vs known) then_⟩

theorem mapM {f : α → Recipe β} {as : List α} (h : ∀ a ∈ as, (f a).Sound Ask P R) :
    (as.mapM f).Sound Ask P fun bs => ∀ b ∈ bs, R b := by
  induction as with
  | nil =>
    intro b none
    cases none
  | cons a rest ih =>
    rw [List.mapM_cons]
    apply (h a List.mem_cons_self).bind
    intro b first
    apply (ih fun c listed => h c (List.mem_cons_of_mem _ listed)).bind
    intro bs others c listed
    rcases List.mem_cons.mp listed with rfl | listed
    · exact first
    · exact others c listed

theorem validator {c : SchemaRef} (h : Ask c) (name : String) (required : Bool) :
    (validator c name required).Sound Ask P P := ⟨h, fun _ known => known⟩

theorem isStrict : isStrict.Sound Ask P fun _ => True := fun _ => trivial

theorem lenient {body : Recipe (List Validator)} (h : body.Sound Ask P fun vs => ∀ v ∈ vs, P v) :
    body.lenient.Sound Ask P fun vs => ∀ v ∈ vs, P v := ⟨h, fun _ known => known⟩

theorem answer {fails : Prop} {x : Recipe α} (h : x.Sound Ask P Q)
    (known : ∀ b c name required, Ask c → Outcome.Meets fails P (sub b c name required)) :
    Outcome.Meets fails Q (x.answer sub b) := by
  induction x generalizing b with
  | done a => exact h
  | part c name required next ih =>
    exact (known b c name required h.1).bind fun v given => ih v (h.2 v given)
  | strict next ih => exact ih b (h b)
  | leniently body next ih_body ih =>
    exact (ih_body h.1).bind fun vs given => ih vs (h.2 vs given)

theorem answer_congr {other : Answers} {x : Recipe α} (h : x.Sound Ask P Q) (all : ∀ v, P v)
    (same : ∀ b c name required, Ask c → sub b c name required = other b c name required) :
    x.answer sub b = x.answer other b := by
  induction x generalizing b with
  | done a => rfl
  | part c name required next ih =>
    simp only [Recipe.answer, same b c name required h.1]
    congr 1
    funext v
    exact ih v (h.2 v (all v))
  | strict next ih => exact ih b (h b)
  | leniently body next ih_body ih =>
    simp only [Recipe.answer, ih_body h.1]
    congr 1
    funext vs
    exact ih vs (h.2 vs fun v _ => all v)

end Sound

def ofObject (o : Options) (s : Schema) (name : String) : Recipe Validator :=
  if s.properties.isEmpty then
    match s.additionalProperties with
    | some (.allowed false) => do return { o with strict := ← isStrict }.objectOf []
    | some (.schema a) => do return .recordOf (← validator a (name ++ "Value") true)
    | _ => return .recordOf (.ofCall "any")
  else do
    let fields ← s.properties.mapM fun p => do
      let v ← validator p.2 (name ++ modelName p.1) (s.required.contains p.1)
      return (p.1, v)
    return { o with strict := ← isStrict }.objectOf fields

def ofArray (s : Schema) (name : String) : Recipe Validator := do
  let item ← match s.items with
    | some i => validator i (name ++ "Item") true
    | none => pure (Validator.ofCall "any")
  let v := Validator.arrayOf item
  let v := v.callCount "min" (name ++ "MinItems") s.minItems
  return v.callCount "max" (name ++ "MaxItems") s.maxItems

def ofType (o : Options) (s : Schema) (t : TypeName) (name : String) : Recipe Validator :=
  match t with
  | .string => return o.text s.toKeywords name
  | .number => return o.number s.toKeywords name
  | .integer => return o.number s.toKeywords name
  | .boolean => return o.coerced "boolean" .boolean
  | .null => return .ofCall "null"
  | .array => ofArray s name
  | .object => ofObject o s name

def ofMembers (label : Nat → String) (members : List SchemaRef) : Recipe (List Validator) :=
  members.zipIdx.mapM fun m => validator m.1 (label m.2) true

def ofBase (o : Options) (s : Schema) (name : String) : Recipe Validator :=
  let option (i : Nat) : String := name ++ "Option" ++ Decimal.digitText (i + 1)
  if !s.oneOf.isEmpty then do return .union (← ofMembers option s.oneOf)
  else if !s.anyOf.isEmpty then do return .union (← ofMembers option s.anyOf)
  else if !s.allOf.isEmpty then do
    let parts ← lenient do
      let parts ← ofMembers (fun i => name ++ "Part" ++ Decimal.digitText (i + 1)) s.allOf
      let own ← if s.properties.isEmpty then pure [] else do
        let v ← ofObject o s name
        pure [v]
      return parts ++ own
    return .intersection parts
  else if !s.enumValues.isEmpty then return .enumeration s.enumValues
  else match s.constValue, s.type with
    | some v, _ => return .literal v
    | none, some (.single t) => ofType o s t name
    | none, some (.several ts) =>
      if (ts.filter (· != .null)).isEmpty then return .ofCall "null"
      else do return .union (← (ts.filter (· != .null)).mapM fun t => ofType o s t name)
    | none, none =>
      if !s.properties.isEmpty || s.additionalProperties.isSome then ofObject o s name
      else if s.items.isSome then ofArray s name
      else return .ofCall "any"

def ofSchema (o : Options) (s : Schema) (name : String) (required : Bool) : Recipe Validator := do
  let v ← ofBase o s name
  return v.finish s.toKeywords name required

end Recipe

theorem mapM_attach {ε α β : Type} (f : α → Except ε β) (as : List α) :
    (as.attach.mapM fun a => f a.1) = as.mapM f := by
  change as.attach.mapM (f ∘ Subtype.val) = _
  rw [← List.mapM_map, List.attach_map_subtype_val]

theorem mapM_attach_zipIdx {ε α β : Type} (f : α → Nat → Except ε β) (as : List α) :
    (as.attach.zipIdx.mapM fun (a, i) => f a.1 i) = as.zipIdx.mapM fun a => f a.1 a.2 := by
  change as.attach.zipIdx.mapM ((fun a => f a.1 a.2) ∘ Prod.map Subtype.val id) = _
  rw [← List.mapM_map, ← List.zipIdx_map, List.attach_map_subtype_val]

namespace Scope

open Recipe

def sub (g : Scope) : Answers := fun b c name required =>
  Scope.validate { g with options := { g.options with strict := b } } c name required

variable {g : Scope} {s : Schema} {name : String}

theorem validateObject_eq :
    g.validateObject s name = (ofObject g.options s name).answer g.sub g.options.strict := by
  rw [validateObject, ofObject]
  split
  · split
    · rename_i given
      rw [given]
      rfl
    · rename_i a given
      rw [given]
      simp only [answer_bind, answer_validator, answer_pure]
      show Except.map _ (g.sub g.options.strict a _ _) = _
      cases g.sub g.options.strict a (name ++ "Value") true <;> rfl
    · rename_i closed other
      split
      · rename_i given
        exact absurd given closed
      · rename_i a given
        exact absurd given (other a)
      · rfl
  · simp only [answer_bind, answer_mapM, answer_validator, answer_pure, answer_isStrict]
    rw [mapM_attach fun (p : String × SchemaRef) => do
      let v ← g.validate p.2 (name ++ modelName p.1) (s.required.contains p.1)
      return (p.1, v)]
    rfl

theorem validateArray_eq :
    g.validateArray s name = (ofArray s name).answer g.sub g.options.strict := by
  rw [validateArray, ofArray]
  split
  · rename_i i given
    rw [given]
    simp only [answer_bind, answer_validator, answer_pure]
    rfl
  · rename_i given
    rw [given]
    rfl

theorem validateType_eq {t : TypeName} :
    g.validateType s t name = (ofType g.options s t name).answer g.sub g.options.strict := by
  cases t with
  | array =>
    rw [validateType]
    exact validateArray_eq
  | object =>
    rw [validateType]
    exact validateObject_eq
  | _ =>
    rw [validateType]
    rfl

theorem members_eq (label : Nat → String) (members : List SchemaRef) :
    (members.attach.zipIdx.mapM fun (m, i) => g.validate m.1 (label i) true) =
      (ofMembers label members).answer g.sub g.options.strict := by
  rw [mapM_attach_zipIdx fun m i => g.validate m (label i) true, ofMembers, answer_mapM]
  simp only [answer_validator]
  rfl

theorem validateBase_eq :
    g.validateBase s name = (ofBase g.options s name).answer g.sub g.options.strict := by
  rw [validateBase, ofBase]
  split
  · rw [members_eq fun i => name ++ "Option" ++ Decimal.digitText (i + 1), answer_bind]
    rfl
  · split
    · rw [members_eq fun i => name ++ "Option" ++ Decimal.digitText (i + 1), answer_bind]
      rfl
    · split
      · have parts := g.lenient.members_eq (fun i => name ++ "Part" ++ Decimal.digitText (i + 1))
          s.allOf
        have object : g.lenient.validateObject s name =
            (ofObject g.options s name).answer g.sub false := validateObject_eq
        simp only [answer_bind, answer_lenient, bind_assoc]
        rw [parts]
        congr 1
        funext parts
        split
        · rfl
        · rw [object]
          simp only [answer_bind, bind_assoc]
          cases (ofObject g.options s name).answer g.sub false <;> rfl
      · split
        · rfl
        · cases s.constValue with
          | some v => rfl
          | none =>
            cases s.type with
            | none =>
              dsimp only
              split
              · exact validateObject_eq
              · split
                · exact validateArray_eq
                · rfl
            | some types =>
              cases types with
              | single t => exact validateType_eq
              | several ts =>
                dsimp only
                split
                · rfl
                · simp only [answer_bind, answer_mapM, validateType_eq]
                  cases (ts.filter (· != .null)).mapM fun t =>
                    (ofType g.options s t name).answer g.sub g.options.strict <;> rfl

theorem validateSchema_eq {required : Bool} : g.validateSchema s name required =
    (ofSchema g.options s name required).answer g.sub g.options.strict := by
  rw [validateSchema, validateBase_eq, ofSchema, answer_bind]
  rfl

end Scope

end TypedClients.Zod
