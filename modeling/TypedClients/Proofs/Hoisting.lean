import TypedClients.Proofs.Exports

namespace TypedClients.Zod

-- The constants that a chain is passed, from left to right.

mutual

def Chain.reads : Chain → List String
  | .start => []
  | .name c _ => c.reads
  | .call c _ a => c.reads ++ a.reads

def Argument.reads : Argument → List String
  | .constant name => [name]
  | .validator v => v.reads
  | .several vs => readsOfMembers vs
  | .array vs => readsOfMembers vs
  | .object fields => readsOfFields fields
  | _ => []

def Validator.reads : Validator → List String
  | ⟨c, _⟩ => c.reads

def readsOfMembers : List Validator → List String
  | [] => []
  | v :: rest => v.reads ++ readsOfMembers rest

def readsOfFields : List (String × Validator) → List String
  | [] => []
  | (_, v) :: rest => v.reads ++ readsOfFields rest

end

theorem readsOfMembers_eq (vs : List Validator) : readsOfMembers vs = vs.flatMap (·.reads) := by
  induction vs with
  | nil => rfl
  | cons v rest ih => rw [readsOfMembers, ih, List.flatMap_cons]

theorem readsOfFields_eq (fields : List (String × Validator)) :
    readsOfFields fields = fields.flatMap fun f => f.2.reads := by
  induction fields with
  | nil => rfl
  | cons f rest ih => rw [readsOfFields, ih, List.flatMap_cons]

def passed (name : String) : String := "(" ++ name ++ ")"

theorem passed_solid (name : String) : Solid (passed name) := by
  refine ⟨')', ?_, by decide⟩
  unfold passed
  rw [String.toList_append, List.getLast?_append]
  rfl

def Chain.passes (c : Chain) : List String := c.reads.map passed

def Validator.passes (v : Validator) : List String := v.reads.map passed

mutual

theorem Chain.write_carries (c : Chain) (depth : Nat) : Carries c.passes (c.write depth) := by
  match c with
  | .start => trivial
  | .name c n =>
    have before := c.write_carries depth
    rw [Chain.write]
    exact (before.before _).before n
  | .call c f a =>
    have before := c.write_carries depth
    have argument := a.write_carries depth
    have whole := (before.before ((if c.isStart then "zod." else ".") ++ f)).append argument
    rw [Chain.passes, Chain.reads, List.map_append, Chain.write]
    simp only [String.append_assoc] at whole ⊢
    exact whole

theorem Argument.write_carries (a : Argument) (depth : Nat) :
    Carries (a.reads.map passed) ("(" ++ (a.write depth ++ ")")) := by
  match a with
  | .none => trivial
  | .source _ => trivial
  | .constant n =>
    rw [← String.append_assoc]
    exact ⟨"", "", by simp [passed, Argument.write], trivial⟩
  | .deferred _ _ => trivial
  | .validator v =>
    have own := v.write_carries depth
    exact (own.before _).behind _
  | .several vs =>
    have all := Carries.join (writeMembers_carry vs depth) ", "
    rw [Argument.reads, readsOfMembers_eq, List.map_flatMap]
    exact (all.before _).behind _
  | .array vs =>
    have all := Carries.join (writeMembers_carry vs depth) ", "
    rw [Argument.reads, readsOfMembers_eq, List.map_flatMap]
    exact (((all.behind "[").before "]").before _).behind _
  | .object [] => trivial
  | .object (f :: rest) =>
    have all := Carries.join (writeFields_carry (f :: rest) (depth + 1)) ""
    rw [Argument.reads, readsOfFields_eq, List.map_flatMap]
    exact (((((all.behind _).before _).before _)).before _).behind _

theorem Validator.write_carries (v : Validator) (depth : Nat) :
    Carries v.passes (v.write depth) := by
  match v with
  | ⟨c, _⟩ => exact c.write_carries depth

theorem writeMembers_carry (vs : List Validator) (depth : Nat) :
    List.Forall₂ Carries (vs.map Validator.passes) (writeMembers depth vs) := by
  match vs with
  | [] => exact .nil
  | v :: rest => exact .cons (v.write_carries depth) (writeMembers_carry rest depth)

theorem writeFields_carry (fields : List (String × Validator)) (depth : Nat) :
    List.Forall₂ Carries (fields.map fun f => f.2.passes) (writeFields depth fields) := by
  match fields with
  | [] => exact .nil
  | (key, v) :: rest =>
    have own := ((v.write_carries depth).behind
      (Text.indentation depth ++ TypeScript.propertyKey key ++ ": ")).before ",\n"
    exact .cons own (writeFields_carry rest depth)

end

namespace Validator

variable {v w : Validator}

/-- The constants are declared in the order in which they are read, each as often as it is read. -/
def Balanced (v : Validator) : Prop := v.names = v.chain.reads

theorem Balanced.emptied (h : v.Balanced) : v.emptied.reads = v.names := h.symm

theorem balanced_alternatives {vs : List Validator} (h : ∀ v ∈ vs, v.Balanced) :
    Balanced ⟨.call .start "union" (.array (vs.map emptied)), vs.flatMap (·.constants)⟩ := by
  have members : readsOfMembers (vs.map emptied) = vs.flatMap names := by
    rw [readsOfMembers_eq, List.flatMap_map]
    exact List.flatMap_congr fun v listed => (h v listed).emptied
  show (vs.flatMap (·.constants)).map Constant.name = readsOfMembers (vs.map emptied)
  rw [members, List.map_flatMap]
  rfl

theorem balanced_fields {fields : List (String × Validator)} (h : ∀ f ∈ fields, f.2.Balanced)
    (function : String) :
    Balanced ⟨.call .start function (.object (fields.map fun f => (f.1, f.2.emptied))),
      fields.flatMap fun f => f.2.constants⟩ := by
  have members : readsOfFields (fields.map fun f => (f.1, f.2.emptied)) =
      fields.flatMap fun f => f.2.names := by
    rw [readsOfFields_eq, List.flatMap_map]
    exact List.flatMap_congr fun f listed => (h f listed).emptied
  show (fields.flatMap fun f => f.2.constants).map Constant.name =
    readsOfFields (fields.map fun f => (f.1, f.2.emptied))
  rw [members, List.map_flatMap]
  rfl

theorem balanced_and (first : v.Balanced) (second : w.Balanced) : (v.and w).Balanced := by
  show (v.and w).names = v.chain.reads ++ w.emptied.reads
  rw [and_names, ← first, second.emptied]

theorem balanced_recordOf (h : v.Balanced) : (recordOf v).Balanced := by
  show v.names = v.emptied.reads ++ []
  rw [List.append_nil, h.emptied]

theorem balanced_call (h : v.Balanced) (function : String) : (v.call function .none).Balanced := by
  show v.names = v.chain.reads ++ []
  rw [List.append_nil, h]

theorem balanced_callConstant (h : v.Balanced) (function name : String) (value : ConstantValue) :
    (v.callConstant function name value).Balanced := by
  show (v.callConstant function name value).names = v.chain.reads ++ [name]
  rw [callConstant_names, h]

theorem balanced_hereditary : Hereditary Balanced where
  nothing := rfl
  ofCall _ := rfl
  ofSource _ _ := rfl
  call h function := balanced_call h function
  callConstant h function name value := balanced_callConstant h function name value
  alternatives h := balanced_alternatives h
  and first second := balanced_and first second
  arrayOf h := h
  recordOf h := balanced_recordOf h
  fields h function := balanced_fields h function

end Validator

/-- The validators that are passed to a chain. -/
def Argument.parts : Argument → List Validator
  | .validator v => [v]
  | .several vs => vs
  | .array vs => vs
  | .object fields => fields.map Prod.snd
  | _ => []

def Chain.parts : Chain → List Validator
  | .start => []
  | .name c _ => c.parts
  | .call c _ a => c.parts ++ a.parts

namespace Validator

/-- A validator stands inside another, at any depth. -/
inductive Within : Validator → Validator → Prop where
  | part {v w : Validator} (h : w ∈ v.chain.parts) : Within w v
  | deeper {u v w : Validator} (h : w ∈ v.chain.parts) (more : Within u w) : Within u v

/-- All constants are declared by the outermost validator. -/
def Hoisted (v : Validator) : Prop := ∀ w : Validator, w.Within v → w.constants = []

variable {u v w : Validator}

theorem hoisted_of_parts (h : ∀ w ∈ v.chain.parts, w.constants = [] ∧ w.Hoisted) : v.Hoisted := by
  intro u inside
  cases inside with
  | part listed => exact (h u listed).1
  | deeper listed more => exact (h _ listed).2 u more

theorem Hoisted.part (h : v.Hoisted) (listed : w ∈ v.chain.parts) :
    w.constants = [] ∧ w.Hoisted := by
  constructor
  · exact h w (.part listed)
  · intro u inside
    exact h u (.deeper listed inside)

theorem Hoisted.emptied (h : v.Hoisted) : v.emptied.constants = [] ∧ v.emptied.Hoisted := by
  constructor
  · rfl
  · apply hoisted_of_parts
    intro w listed
    exact h.part listed

theorem hoisted_start : start.Hoisted := by
  apply hoisted_of_parts
  intro w none
  cases none

theorem hoisted_of_call {function : String} {a : Argument} (h : u.Hoisted)
    (parts : ∀ w ∈ a.parts, w.constants = [] ∧ w.Hoisted)
    (chain : v.chain = u.chain.call function a) : v.Hoisted := by
  apply hoisted_of_parts
  intro w listed
  rw [chain] at listed
  rcases List.mem_append.mp listed with before | own
  · exact h.part before
  · exact parts w own

theorem hoisted_plain {function : String} {a : Argument} (h : u.Hoisted) (alone : a.parts = [])
    (chain : v.chain = u.chain.call function a) : v.Hoisted := by
  refine hoisted_of_call h ?_ chain
  intro w own
  rw [alone] at own
  cases own

theorem hoisted_and (first : v.Hoisted) (second : w.Hoisted) : (v.and w).Hoisted := by
  refine hoisted_of_call (a := .validator w.emptied) first ?_ rfl
  intro u own
  cases List.mem_singleton.mp own
  exact second.emptied

theorem hoisted_arrayOf (h : v.Hoisted) : (arrayOf v).Hoisted := by
  refine hoisted_of_call (a := .validator v.emptied) hoisted_start ?_ rfl
  intro u own
  cases List.mem_singleton.mp own
  exact h.emptied

theorem hoisted_recordOf (h : v.Hoisted) : (recordOf v).Hoisted := by
  have key : (ofCall "string").Hoisted := hoisted_plain hoisted_start (a := .none) rfl rfl
  refine hoisted_of_call (a := .several [ofCall "string", v.emptied]) hoisted_start ?_ rfl
  intro u own
  rcases List.mem_cons.mp own with rfl | own
  · exact key.emptied
  · cases List.mem_singleton.mp own
    exact h.emptied

theorem hoisted_alternatives {vs : List Validator} (h : ∀ v ∈ vs, v.Hoisted) :
    Hoisted ⟨.call .start "union" (.array (vs.map emptied)), vs.flatMap (·.constants)⟩ := by
  refine hoisted_of_call (a := .array (vs.map emptied)) hoisted_start ?_ rfl
  intro u own
  obtain ⟨v, listed, rfl⟩ := List.mem_map.mp own
  exact (h v listed).emptied

theorem hoisted_fields {fields : List (String × Validator)} (h : ∀ f ∈ fields, f.2.Hoisted)
    (function : String) :
    Hoisted ⟨.call .start function (.object (fields.map fun f => (f.1, f.2.emptied))),
      fields.flatMap fun f => f.2.constants⟩ := by
  refine hoisted_of_call (a := .object (fields.map fun f => (f.1, f.2.emptied))) hoisted_start ?_ rfl
  intro u own
  obtain ⟨field, member, rfl⟩ := List.mem_map.mp own
  obtain ⟨f, listed, rfl⟩ := List.mem_map.mp member
  exact (h f listed).emptied

theorem hoisted_hereditary : Hereditary Hoisted where
  nothing := hoisted_start
  ofCall _ := hoisted_plain hoisted_start (a := .none) rfl rfl
  ofSource _ text := hoisted_plain hoisted_start (a := .source text) rfl rfl
  call h _ := hoisted_plain h (a := .none) rfl rfl
  callConstant h _ name _ := hoisted_plain h (a := .constant name) rfl rfl
  alternatives h := hoisted_alternatives h
  and first second := hoisted_and first second
  arrayOf h := hoisted_arrayOf h
  recordOf h := hoisted_recordOf h
  fields h function := hoisted_fields h function

/-- What stands in the text of a declaration: the constants, the validator itself, and the calls
that the constants are passed to. -/
def marks (v : Validator) (name : String) (typed : Bool) : List String :=
  (v.exports name typed).map Export.head ++ v.chain.passes

end Validator

open Outcome Validator

variable {g : Scope} {name : String} {v : Validator}

theorem Scope.namedModel_bare {current : Option String} {sharedFile : Bool} {path : String}
    (run : g.namedModel current sharedFile path = .ok v) : v.Balanced ∧ v.Hoisted := by
  obtain ⟨target, _, rfl | ⟨cyclic, rfl⟩⟩ := namedModel_eq_ok run
  · constructor
    · rfl
    · apply hoisted_of_parts
      intro w none
      cases none
  · constructor
    · rfl
    · exact hoisted_plain hoisted_start (a := .deferred (modelName target) cyclic) rfl rfl

theorem Scope.validate_balanced {r : SchemaRef} {required : Bool}
    (run : g.validate r name required = .ok v) : v.Balanced := by
  apply validate_keeps balanced_hereditary run
  intro current sharedFile path w _ _ made
  exact (namedModel_bare made).1

theorem Scope.validate_hoisted {r : SchemaRef} {required : Bool}
    (run : g.validate r name required = .ok v) : v.Hoisted := by
  apply validate_keeps hoisted_hereditary run
  intro current sharedFile path w _ _ made
  exact (namedModel_bare made).2

theorem Scope.validateFields_balanced {fields : List (String × Option SchemaRef × Bool)}
    (run : g.validateFields fields name = .ok v) : v.Balanced := by
  apply validateFields_members balanced_hereditary run
  intro _ _ _ _ _ _ own
  exact validate_balanced own

theorem Scope.validateFields_hoisted {fields : List (String × Option SchemaRef × Bool)}
    (run : g.validateFields fields name = .ok v) : v.Hoisted := by
  apply validateFields_members hoisted_hereditary run
  intro _ _ _ _ _ _ own
  exact validate_hoisted own

theorem Validator.declaration_marks (v : Validator) (name : String) :
    Carries (v.marks name false) (v.declaration name) :=
  declaration_carries (v.chain.write_carries 0) name

def Validator.Writes (v : Validator) (e : ModelEntry) : Prop :=
  e.constants = v.constantLines ∧ ∃ s, e.declaration = modelDeclaration s e.name v

theorem Validator.Writes.text_carries {e : ModelEntry} (h : v.Writes e) :
    Carries (v.marks e.name v.chain.isCyclic) e.text := by
  obtain ⟨name, path, constants, declaration, imports⟩ := e
  obtain ⟨rfl, s, same⟩ := h
  dsimp only at same
  subst same
  refine modelText_carries s name path (v.chain.write_carries 0) (fun c mem => ?_) imports
  obtain ⟨n, _, rfl⟩ := List.mem_map.mp mem
  exact passed_solid n

/-- Everything that a validator reads is declared with it and nothing else is, in the same order,
and the validators inside declare nothing. In every text into which a validator is written the
declarations come first. -/
theorem constants_declared_before_use :
    (∀ (g : Scope) (r : SchemaRef) (name : String) (required : Bool) (v : Validator),
      g.validate r name required = .ok v → (∀ w : Validator, w.Within v → w.constants = []) ∧
        v.names = v.chain.reads ∧ ∀ own, Carries (v.marks own false) (v.declaration own)) ∧
    (∀ (g : Scope) (fields : List (String × Option SchemaRef × Bool)) (name : String)
      (v : Validator), g.validateFields fields name = .ok v →
        (∀ w : Validator, w.Within v → w.constants = []) ∧
        v.names = v.chain.reads ∧ ∀ own, Carries (v.marks own false) (v.declaration own)) ∧
    ∀ (c : ModelContext) (entries : List ModelEntry) (f : ModelFile),
      (∀ e ∈ entries, ∃ n s, emitter.emit c n s = .ok e) → f ∈ ModelFile.assemble entries →
        ∃ validator : ModelEntry → Validator,
          (∀ e ∈ f.entries, (validator e).Writes e ∧
            (∀ w : Validator, w.Within (validator e) → w.constants = []) ∧
            (validator e).names = (validator e).chain.reads) ∧
          Carries (f.entries.flatMap fun e =>
            (validator e).marks e.name (validator e).chain.isCyclic) f.body := by
  refine ⟨?_, ?_, ?_⟩
  · intro g r name required v run
    have inside := Scope.validate_hoisted run
    have order := Scope.validate_balanced run
    exact ⟨inside, order, v.declaration_marks⟩
  · intro g fields name v run
    have inside := Scope.validateFields_hoisted run
    have order := Scope.validateFields_balanced run
    exact ⟨inside, order, v.declaration_marks⟩
  · intro c entries f emitted file
    have written : ∀ e ∈ f.entries, ∃ v : Validator, v.Writes e ∧ v.Hoisted ∧ v.Balanced := by
      intro e own
      obtain ⟨listed, _⟩ := (ModelFile.mem_entries file).mp own
      obtain ⟨n, s, run⟩ := emitted e listed
      obtain ⟨v, made, entry⟩ := modelEntry_iff.mp (mapError_eq_ok.mp run)
      have writes : v.Writes e := by
        rw [entry]
        exact ⟨rfl, s, rfl⟩
      have inside := Scope.validate_hoisted made
      have order := Scope.validate_balanced made
      exact ⟨v, writes, inside, order⟩
    have some_validator : Nonempty Validator := ⟨start⟩
    choose! validator known using written
    refine ⟨validator, known, ?_⟩
    unfold ModelFile.body
    rw [List.flatMap_def]
    apply Carries.join
    rw [List.forall₂_map_left_iff, List.forall₂_map_right_iff, List.forall₂_same]
    intro e own
    obtain ⟨writes, _, _⟩ := known e own
    exact writes.text_carries

-- A model whose constants come from an item of an array, the array itself and a union.

def crateLabel : Schema :=
  { type := some (.single .string), minLength := some 2, default := some (.text "box") }

def crateLabels : Schema :=
  { type := some (.single .array), items := some (.item crateLabel), minItems := some 1 }

def crateCode : Schema := { oneOf := [.item crateLabel, .item crateLabels] }

def crateSchema : Schema :=
  { properties := [("labels", .item crateLabels), ("code", .item crateCode)] }

def crateContext : ModelContext := ⟨⟨[("Crate", .item crateSchema)]⟩, {}, "store"⟩

def labelValidator (o : Options) (name : String) : Validator :=
  (o.text crateLabel.toKeywords name).finish crateLabel.toKeywords name true

def labelsValidator (o : Options) (name : String) (required : Bool) : Validator :=
  ((labelValidator o (name ++ "Item")).arrayOf.callCount "min" (name ++ "MinItems") (some 1)).finish
    crateLabels.toKeywords name required

def codeValidator (o : Options) (name : String) (required : Bool) : Validator :=
  (union [labelValidator o (name ++ "Option1"), labelsValidator o (name ++ "Option2") true]).finish
    crateCode.toKeywords name required

def crateValidator (o : Options) (name : String) (required : Bool) : Validator :=
  (o.objectOf [("labels", labelsValidator o (name ++ "Labels") false),
    ("code", codeValidator o (name ++ "Code") false)]).finish crateSchema.toKeywords name required

theorem validate_crateLabel (g : Scope) (name : String) :
    g.validate (.item crateLabel) name true = .ok (labelValidator g.options name) := by
  rw [Scope.validate, Scope.validateSchema, Scope.validateBase]
  show (g.validateType crateLabel .string name >>= _) = _
  rw [Scope.validateType]
  rfl

theorem validate_crateLabels (g : Scope) (name : String) (required : Bool) :
    g.validate (.item crateLabels) name required =
      .ok (labelsValidator g.options name required) := by
  rw [Scope.validate, Scope.validateSchema, Scope.validateBase]
  show (g.validateType crateLabels .array name >>= _) = _
  rw [Scope.validateType, Scope.validateArray]
  show ((g.validate (.item crateLabel) (name ++ "Item") true >>= _) >>= _) = _
  rw [validate_crateLabel]
  rfl

theorem validate_crateCode (g : Scope) (name : String) (required : Bool) :
    g.validate (.item crateCode) name required =
      .ok (codeValidator g.options name required) := by
  rw [Scope.validate, Scope.validateSchema, Scope.validateBase]
  show ((List.mapM _ [_, _] >>= _) >>= _) = _
  have one : "Option" ++ Decimal.digitText (0 + 1) = "Option1" := by decide
  have two : "Option" ++ Decimal.digitText (0 + 1 + 1) = "Option2" := by decide
  simp only [List.mapM_cons, List.mapM_nil, String.append_assoc, one, two, validate_crateLabel,
    validate_crateLabels]
  rfl

theorem validate_crate (g : Scope) (name : String) (required : Bool) :
    g.validate (.item crateSchema) name required =
      .ok (crateValidator g.options name required) := by
  rw [Scope.validate, Scope.validateSchema, Scope.validateBase]
  show (g.validateObject crateSchema name >>= _) = _
  rw [Scope.validateObject]
  show ((List.mapM _ [_, _] >>= _) >>= _) = _
  have labels : modelName "labels" = "Labels" := by decide
  have code : modelName "code" = "Code" := by decide
  simp only [List.mapM_cons, List.mapM_nil, labels, code, validate_crateLabels,
    validate_crateCode]
  rfl

theorem validateFields_crate (g : Scope) (name : String) :
    g.validateFields [("labels", some (.item crateLabels), false),
      ("code", some (.item crateCode), false)] name =
        .ok (g.options.objectOf [("labels", labelsValidator g.options (name ++ "Labels") false),
          ("code", codeValidator g.options (name ++ "Code") false)]) := by
  have labels : modelName "labels" = "Labels" := by decide
  have code : modelName "code" = "Code" := by decide
  simp only [Scope.validateFields, List.mapM_cons, List.mapM_nil, labels, code,
    validate_crateLabels, validate_crateCode]
  rfl

def crateEntry : ModelEntry where
  name := "Crate"
  path := crateContext.path "Crate"
  constants := (crateValidator ⟨.third, false, .all false⟩ "Crate" true).constantLines
  declaration := modelDeclaration (.item crateSchema) "Crate"
    (crateValidator ⟨.third, false, .all false⟩ "Crate" true)

theorem emit_crate : emitter.emit crateContext "Crate" (.item crateSchema) = .ok crateEntry := by
  have name : modelName "Crate" = "Crate" := by decide
  have options : (modelScope crateContext "Crate").options = ⟨.third, false, .all false⟩ := by
    decide
  refine mapError_eq_ok.mpr ?_
  unfold modelEntry
  rw [name, validate_crate, options]
  rfl

theorem constants_declared_before_use_crate :
    ∃ (v w : Validator) (f : ModelFile),
      (modelScope crateContext "Crate").validate (.item crateSchema) "Crate" true = .ok v ∧
      v.names = ["CrateLabelsItemMinLength", "CrateLabelsItemDefault", "CrateLabelsMinItems",
        "CrateCodeOption1MinLength", "CrateCodeOption1Default", "CrateCodeOption2ItemMinLength",
        "CrateCodeOption2ItemDefault", "CrateCodeOption2MinItems"] ∧
      (∃ u : Validator, u.Within v ∧ u.chain.reads = ["CrateLabelsItemMinLength",
        "CrateLabelsItemDefault", "CrateLabelsMinItems"] ∧ u.constants = []) ∧
      v.names = v.chain.reads ∧ Carries (v.marks "Crate" false) (v.declaration "Crate") ∧
      (modelScope crateContext "Crate").validateFields [("labels", some (.item crateLabels), false),
        ("code", some (.item crateCode), false)] "Pack" = .ok w ∧
      (∀ u : Validator, u.Within w → u.constants = []) ∧
      w.names = w.chain.reads ∧ Carries (w.marks "pack" false) (w.declaration "pack") ∧
      emitter.emit crateContext "Crate" (.item crateSchema) = .ok crateEntry ∧
      f ∈ ModelFile.assemble [crateEntry] ∧ crateEntry ∈ f.entries ∧
      ∃ validator : ModelEntry → Validator, (validator crateEntry).Writes crateEntry ∧
        (∀ u : Validator, u.Within (validator crateEntry) → u.constants = []) ∧
        (validator crateEntry).names = (validator crateEntry).chain.reads ∧
        Carries (f.entries.flatMap fun e =>
          (validator e).marks e.name (validator e).chain.isCyclic) f.body := by
  have ⟨schemas, fields, files⟩ := constants_declared_before_use
  have made := validate_crate (modelScope crateContext "Crate") "Crate" true
  obtain ⟨inside, order, text⟩ := schemas _ _ _ _ _ made
  have packed := validateFields_crate (modelScope crateContext "Crate") "Pack"
  obtain ⟨packed_inside, packed_order, packed_text⟩ := fields _ _ _ _ packed
  have emitted : ∀ e ∈ [crateEntry], ∃ n s, emitter.emit crateContext n s = .ok e := by
    intro e mem
    cases List.mem_singleton.mp mem
    exact ⟨_, _, emit_crate⟩
  obtain ⟨f, file, own⟩ := ModelFile.mem_of_assemble (List.mem_singleton_self crateEntry)
  obtain ⟨validator, known, body⟩ := files crateContext _ f emitted file
  obtain ⟨writes, entry_inside, entry_order⟩ := known _ own
  have labels : (labelsValidator (modelScope crateContext "Crate").options "CrateLabels"
      false).emptied.Within
        (crateValidator (modelScope crateContext "Crate").options "Crate" true) := by
    apply Within.part
    exact List.mem_cons_self
  refine ⟨_, _, f, made, by decide, ⟨_, labels, by decide, inside _ labels⟩, order, text _, packed,
    packed_inside, packed_order, packed_text _, emit_crate, file, own, validator, writes,
    entry_inside, entry_order, body⟩

end TypedClients.Zod
