import TypedClients.Proofs.Dereference
import TypedClients.Proofs.ModelNames
import TypedClients.Proofs.Uses
import TypedClients.Zod.Backend

namespace TypedClients.Zod

theorem modelName_eq {path target : String} (named : Pointer.schemaName? path = some target) :
    refTypeName path = modelName target := by
  unfold refTypeName modelName
  rw [named]
  rfl

namespace Scope

open Outcome

variable {fails : Prop} {P : Validator → Prop}

theorem validate_ref {g : Scope} {current : Option String} {sharedFile : Bool}
    (style : g.refs = .named current sharedFile) (path name : String) (required : Bool) :
    g.validate (.ref path) name required =
      (g.namedModel current sharedFile path).map (.optionalUnless required) := by
  rw [validate]
  simp only [style]

theorem validate_expanded {g : Scope} (style : g.refs = .inline) (path name : String)
    (required : Bool) : g.validate (.ref path) name required =
      match g.arena.deref g.busy (.ref path) with
      | .error e => .error (.resolve e)
      | .ok (.cycle _) => .ok ((Validator.ofCall "any").optionalUnless required)
      | .ok (.schema entry s) => (g.enter entry).validateSchema s name required := by
  rw [validate]
  simp only [style]
  split
  · rename_i found
    rw [found]
  · rename_i found
    rw [found]
  · rename_i found
    rw [found]

theorem validate_reference {g : Scope} (style : g.refs = .inline)
    (items : ∀ b ∈ g.busy, ∃ s, g.arena.find? b = some (.item s)) {path n t : String} {s : Schema}
    (named : Pointer.schemaName? path = some n) (stands : g.arena.StandsFor n t)
    (stored : g.arena.find? t = some (.item s)) (name : String) (required : Bool) :
    g.validate (.ref path) name required =
      if g.busy.contains t then .ok ((Validator.ofCall "any").optionalUnless required)
      else validate { g with busy := t :: g.busy } (.item s) name required := by
  rw [validate_expanded style, Arena.deref_eq items named stands stored]
  cases g.busy.contains t with
  | true => rfl
  | false =>
    rw [validate]
    rfl

theorem validate_named (keeps : Validator.Hereditary P) {g : Scope} {current : Option String}
    {sharedFile : Bool} {r : SchemaRef} {name : String} {required : Bool}
    (style : g.refs = .named current sharedFile)
    (known : ∀ path, r.Mentions path →
      Meets fails P (g.namedModel current sharedFile path)) :
    Meets fails P (g.validate r name required) := by
  induction r using SchemaRef.induction generalizing g name required with
  | ref path =>
    rw [validate_ref style]
    apply (known path (.here path)).map
    intro v own
    exact keeps.optionalUnless own required
  | item s ih =>
    rw [validate, validateSchema_eq]
    apply (Recipe.ofSchema_sound keeps g.options s name required).answer
    intro b c name required held
    apply ih c held
    · exact style
    · intro path mentioned
      exact known path (.inside held mentioned)

theorem validate_inline (keeps : Validator.Hereditary P) {g : Scope} (Proper : SchemaRef → Prop)
    (style : g.refs = .inline)
    (inside : ∀ s c, Proper (.item s) → s.Holds c → Proper c)
    (follows : ∀ busy path, Proper (.ref path) →
      Meets fails (fun d => ∀ entry s, d = .schema entry s → Proper (.item s))
        (g.arena.deref busy (.ref path)))
    {r : SchemaRef} {name : String} {required : Bool} (proper : Proper r) :
    Meets fails P (g.validate r name required) := by
  obtain ⟨arena, options, refs, busy⟩ := g
  change refs = .inline at style
  change ∀ busy path, Proper (.ref path) → Meets fails _ (arena.deref busy (.ref path)) at follows
  induction busy, r using arena.expansion_induction generalizing options name required with
  | item busy s ih =>
    rw [validate, validateSchema_eq]
    apply (Recipe.ofSchema_sound keeps options s name required).answer
    intro b c name required held
    exact ih c held (inside s c proper held) _
  | ref busy path ih =>
    have expands := follows busy path proper
    rw [validate_expanded style]
    cases found : arena.deref busy (.ref path) with
    | error e =>
      rw [found] at expands
      exact expands
    | ok d =>
      cases d with
      | cycle n => exact keeps.optionalUnless (keeps.ofCall _) required
      | schema entry s =>
        rcases Arena.derefFrom_schema found with ⟨_, none, _⟩ | ⟨n, rfl, known, fresh⟩
        · cases none
        have target : Proper (.item s) := expands.of_ok found _ s rfl
        have deeper : Meets fails P
            (validate ⟨arena, options, refs, n :: busy⟩ (.item s) name required) :=
          ih n s known fresh target options
        rw [validate] at deeper
        exact deeper

variable {g : Scope} {name : String} {required : Bool} {v : Validator}

theorem namedModel_eq_ok {current : Option String} {sharedFile : Bool} {path : String}
    (h : g.namedModel current sharedFile path = .ok v) : ∃ target,
      Pointer.schemaName? path = some target ∧ (v = .ofModel (modelName target) ∨
        ∃ cyclic, v = ⟨.call .start "lazy" (.deferred (modelName target) cyclic), []⟩) := by
  unfold namedModel at h
  split at h
  · cases h
  · rename_i target named
    dsimp only at h
    refine ⟨target, named, ?_⟩
    split at h
    · split at h
      · cases h
        exact .inr ⟨_, rfl⟩
      · cases h
        exact .inl rfl
    · cases h
      exact .inl rfl

theorem namedModel_uses {current : Option String} {sharedFile : Bool} {path : String}
    (h : g.namedModel current sharedFile path = .ok v) : ∃ target put,
      Pointer.schemaName? path = some target ∧ v.chain.uses = [(modelName target, put)] := by
  obtain ⟨target, named, rfl | ⟨cyclic, rfl⟩⟩ := namedModel_eq_ok h
  · exact ⟨target, false, named, rfl⟩
  · exact ⟨target, true, named, rfl⟩

/-- A validator that could be made is made of others alone, those that stand for named models among
them. -/
theorem validate_keeps (keeps : Validator.Hereditary P) {r : SchemaRef}
    (run : g.validate r name required = .ok v)
    (named : ∀ current sharedFile path w, g.refs = .named current sharedFile → r.Mentions path →
      g.namedModel current sharedFile path = .ok w → P w) : P v := by
  suffices made : Meets True P (g.validate r name required) from made.of_ok run
  cases style : g.refs with
  | inline =>
    apply validate_inline keeps (fun _ => True) style
    · exact fun _ _ _ _ => trivial
    · exact fun _ _ _ => meets_of_ok fun _ _ _ _ _ => trivial
    · trivial
  | named current sharedFile =>
    apply validate_named keeps style
    intro path mentioned
    exact meets_of_ok fun w made => named current sharedFile path w style mentioned made

theorem validate_models {r : SchemaRef} (h : g.validate r name required = .ok v) :
    ∀ m ∈ v.chain.models, g.refs ≠ .inline ∧ r.MentionsModel m := by
  have all : v.AllUses fun u => g.refs ≠ .inline ∧ r.MentionsModel u.1 := by
    refine validate_keeps (Validator.allUses_hereditary _) h ?_
    intro current sharedFile path w style mentioned made
    obtain ⟨target, lazy, named, uses⟩ := namedModel_uses made
    intro u mem
    rw [uses] at mem
    cases List.mem_singleton.mp mem
    rw [style]
    exact ⟨RefStyle.noConfusion, path, mentioned, (modelName_eq named).symm⟩
  intro m mem
  obtain ⟨_, known⟩ := all.models mem
  exact known

end Scope

open Outcome

theorem Scope.validateFields_members {P : Validator → Prop} (keeps : Validator.Hereditary P)
    {g : Scope} {fields : List (String × Option SchemaRef × Bool)} {name : String} {v : Validator}
    (h : g.validateFields fields name = .ok v)
    (own : ∀ key r required name w, (key, some r, required) ∈ fields →
      g.validate r name required = .ok w → P w) : P v := by
  unfold validateFields at h
  obtain ⟨made, run, rfl⟩ := map_eq_ok.mp h
  apply keeps.objectOf
  intro f listed
  obtain ⟨⟨key, o, required⟩, field, step⟩ := mem_of_mapM run listed
  cases o with
  | none =>
    rw [bind_eq_ok] at step
    obtain ⟨w, run, same⟩ := step
    rw [pure_eq_ok] at run same
    subst run same
    exact keeps.optionalUnless (keeps.ofCall _) required
  | some r =>
    rw [bind_eq_ok] at step
    obtain ⟨w, run, same⟩ := step
    rw [pure_eq_ok] at same
    subst same
    exact own key r required _ w field run

theorem Scope.validateFields_models {g : Scope} {fields : List (String × Option SchemaRef × Bool)}
    {name : String} {v : Validator} (h : g.validateFields fields name = .ok v) :
    ∀ m ∈ v.chain.models,
      ∃ key r required, (key, some r, required) ∈ fields ∧ r.MentionsModel m := by
  let covered (u : String × Bool) : Prop :=
    ∃ key r required, (key, some r, required) ∈ fields ∧ r.MentionsModel u.1
  have all : v.AllUses covered := by
    refine validateFields_members (Validator.allUses_hereditary covered) h ?_
    intro key r required name w field run
    apply Validator.AllUses.of_models
    intro m mem _
    exact ⟨key, r, required, field, (validate_models run m mem).2⟩
  intro m mem
  obtain ⟨_, known⟩ := all.models mem
  exact known

def Subject.Covers : Subject → SchemaRef → Prop
  | .fields params, r => ∃ p ∈ params, p.schema = some r
  | .schema s, r => r = s

theorem Task.validator_models {t : Task} {arena : Arena} {config : ZodConfig} {refs : RefStyle}
    {v : Validator} (h : t.validator arena config refs = .ok v) :
    ∀ m ∈ v.chain.models, ∃ r, t.subject.Covers r ∧ r.MentionsModel m := by
  unfold Task.validator at h
  dsimp only at h
  cases subject : t.subject with
  | fields params =>
    rw [subject] at h
    intro m mem
    obtain ⟨_, r, _, listed, mentioned⟩ := Scope.validateFields_models h m mem
    obtain ⟨p, member, same⟩ := List.mem_map.mp listed
    have schema : p.schema = some r := congrArg (fun x => x.2.1) same
    exact ⟨r, ⟨p, member, schema⟩, mentioned⟩
  | schema s =>
    rw [subject] at h
    intro m mem
    exact ⟨s, rfl, (Scope.validate_models h m mem).2⟩

theorem mem_paramsTask {site : Site} {name : String} {params : List Param} {t : Task}
    (h : t ∈ paramsTask site name params) : t.subject = .fields params := by
  unfold paramsTask at h
  split at h
  · cases h
  · have same := List.mem_singleton.mp h
    rw [same]

theorem covers_schemaRoots {e : Endpoint} {t : Task} {r : SchemaRef} (listed : t ∈ tasks e)
    (covers : t.subject.Covers r) : r ∈ e.schemaRoots := by
  have grouped : ∀ params, t.subject = .fields params → (∀ p ∈ params, p ∈ e.params) →
      r ∈ e.schemaRoots := by
    intro params subject part
    rw [subject] at covers
    obtain ⟨p, member, schema⟩ := covers
    have root : r ∈ e.params.filterMap (·.schema) :=
      List.mem_filterMap.mpr ⟨p, part p member, schema⟩
    exact List.mem_append_left _ (List.mem_append_left _ root)
  unfold tasks at listed
  simp only [List.mem_append] at listed
  rcases listed with (((path | query) | header) | body) | response
  · apply grouped _ (mem_paramsTask path)
    intro p member
    exact List.mem_append_left _ (List.mem_append_left _ member)
  · apply grouped _ (mem_paramsTask query)
    intro p member
    exact List.mem_append_left _ (List.mem_append_right _ member)
  · apply grouped _ (mem_paramsTask header)
    intro p member
    exact List.mem_append_right _ member
  · obtain ⟨s, schema, rfl⟩ := Option.map_eq_some_iff.mp (Option.mem_toList.mp body)
    cases covers
    have root : r ∈ (e.body.bind (·.schema)).toList := Option.mem_toList.mpr schema
    exact List.mem_append_left _ (List.mem_append_right _ root)
  · unfold responseTasks at response
    obtain ⟨⟨v, s⟩, member, rfl⟩ := List.mem_map.mp response
    obtain ⟨w, success, found⟩ := List.mem_filterMap.mp member
    obtain ⟨u, schema, same⟩ := Option.map_eq_some_iff.mp found
    cases same
    cases covers
    have root : r ∈ e.response.variants.filterMap (·.schema) :=
      List.mem_filterMap.mpr ⟨v, List.mem_append_left _ success, schema⟩
    exact List.mem_append_right _ root

theorem clientText_models {c : ClientContext} {e : Endpoint} {text : ClientText}
    (h : clientText c e = .ok text) {m : String} (mem : m ∈ text.models) :
    ∃ r ∈ e.schemaRoots, r.MentionsModel m := by
  unfold clientText at h
  rw [bind_eq_ok] at h
  obtain ⟨declared, run, same⟩ := h
  rw [pure_eq_ok] at same
  subst same
  obtain ⟨⟨name, v⟩, listed, mem⟩ := List.mem_flatMap.mp (Names.mem_ofList.mp mem)
  obtain ⟨t, task, step⟩ := mem_of_mapM run listed
  rw [bind_eq_ok] at step
  obtain ⟨w, step, same⟩ := step
  rw [pure_eq_ok] at same
  cases same
  obtain ⟨r, covers, mentioned⟩ := Task.validator_models step m (Names.mem_ofList.mp mem)
  exact ⟨r, covers_schemaRoots task covers, mentioned⟩

theorem modelEntry_iff {c : ModelContext} {name : String} {r : SchemaRef} {entry : ModelEntry} :
    modelEntry c name r = .ok entry ↔
      ∃ v, (modelScope c name).validate r (modelName name) true = .ok v ∧ entry = {
        name := modelName name
        path := c.path name
        constants := v.constantLines
        declaration := modelDeclaration r (modelName name) v
        imports := v.models.filter (· != modelName name) } := by
  unfold modelEntry
  simp only [bind_eq_ok, pure_eq_ok]

theorem modelEntry_eq_ok {c : ModelContext} {name : String} {r : SchemaRef} {entry : ModelEntry}
    (h : modelEntry c name r = .ok entry) :
    entry.name = modelName name ∧ entry.path = c.path name ∧
      ∀ m ∈ entry.imports, r.MentionsModel m := by
  obtain ⟨v, run, rfl⟩ := modelEntry_iff.mp h
  refine ⟨rfl, rfl, fun m mem => ?_⟩
  have named := Names.mem_ofList.mp (List.mem_filter.mp mem).1
  exact (Scope.validate_models run m named).2

end TypedClients.Zod
