import TypedClients.Proofs.Progress
import TypedClients.Proofs.Resolution

namespace TypedClients

namespace Schema

def mapChildren (f : SchemaRef → SchemaRef) (s : Schema) : Schema :=
  { s with
    properties := Keyed.mapValues f s.properties
    additionalProperties := s.additionalProperties.map fun
      | .schema c => .schema (f c)
      | .allowed b => .allowed b
    patternProperties := Keyed.mapValues f s.patternProperties
    dependentSchemas := Keyed.mapValues f s.dependentSchemas
    items := s.items.map f
    allOf := s.allOf.map f
    oneOf := s.oneOf.map f
    anyOf := s.anyOf.map f
    notSchema := s.notSchema.map f
    ifSchema := s.ifSchema.map f
    thenSchema := s.thenSchema.map f
    elseSchema := s.elseSchema.map f
    definitions := Keyed.mapValues f s.definitions }

/-- The same, for a function that may rely on where a schema stands. -/
def mapHeld (s : Schema) (f : ∀ c, s.Holds c → SchemaRef) : Schema :=
  let table (t : List (String × SchemaRef)) (held : ∀ p ∈ t, s.Holds p.2) :=
    t.pmap (fun p h => (p.1, f p.2 h)) held
  { s with
    properties := table s.properties fun _ => .property
    additionalProperties := match h : s.additionalProperties with
      | some (.schema c) => some (.schema (f c (.additional h)))
      | some (.allowed b) => some (.allowed b)
      | none => none
    patternProperties := table s.patternProperties fun _ => .pattern
    dependentSchemas := table s.dependentSchemas fun _ => .dependent
    items := s.items.pmap f fun _ => .items
    allOf := s.allOf.pmap f fun _ => .allOf
    oneOf := s.oneOf.pmap f fun _ => .oneOf
    anyOf := s.anyOf.pmap f fun _ => .anyOf
    notSchema := s.notSchema.pmap f fun _ => .not
    ifSchema := s.ifSchema.pmap f fun _ => .ifBranch
    thenSchema := s.thenSchema.pmap f fun _ => .thenBranch
    elseSchema := s.elseSchema.pmap f fun _ => .elseBranch
    definitions := table s.definitions fun _ => .definition }

theorem mapHeld_eq (s : Schema) (f : SchemaRef → SchemaRef) :
    (s.mapHeld fun c _ => f c) = s.mapChildren f := by
  unfold mapHeld mapChildren Keyed.mapValues
  simp only [List.pmap_eq_map, Option.pmap_eq_map]
  congr 1
  split
  · rename_i given
    rw [given]
    rfl
  · rename_i given
    rw [given]
    rfl
  · rename_i given
    rw [given]
    rfl

theorem holds_mapChildren {f : SchemaRef → SchemaRef} {s : Schema} {c : SchemaRef}
    (h : (s.mapChildren f).Holds c) : ∃ d, s.Holds d ∧ c = f d := by
  have table : ∀ {t : List (String × SchemaRef)} {name : String}, (name, c) ∈ Keyed.mapValues f t →
      ∃ d, (name, d) ∈ t ∧ c = f d := by
    intro t name listed
    obtain ⟨⟨_, d⟩, mem, same⟩ := List.mem_map.mp listed
    cases same
    exact ⟨d, mem, rfl⟩
  have list : ∀ {cs : List SchemaRef}, c ∈ cs.map f → ∃ d, d ∈ cs ∧ c = f d := by
    intro cs listed
    obtain ⟨d, mem, same⟩ := List.mem_map.mp listed
    exact ⟨d, mem, same.symm⟩
  have option : ∀ {o : Option SchemaRef}, o.map f = some c → ∃ d, o = some d ∧ c = f d := by
    intro o given
    obtain ⟨d, stands, same⟩ := Option.map_eq_some_iff.mp given
    exact ⟨d, stands, same.symm⟩
  cases h with
  | property h => exact (table h).imp fun _ both => ⟨.property both.1, both.2⟩
  | items h => exact (option h).imp fun _ both => ⟨.items both.1, both.2⟩
  | additional h =>
    obtain ⟨a, given, same⟩ := Option.map_eq_some_iff.mp h
    cases a with
    | allowed b => cases same
    | schema d =>
      cases same
      exact ⟨d, .additional given, rfl⟩
  | allOf h => exact (list h).imp fun _ both => ⟨.allOf both.1, both.2⟩
  | anyOf h => exact (list h).imp fun _ both => ⟨.anyOf both.1, both.2⟩
  | oneOf h => exact (list h).imp fun _ both => ⟨.oneOf both.1, both.2⟩
  | not h => exact (option h).imp fun _ both => ⟨.not both.1, both.2⟩
  | ifBranch h => exact (option h).imp fun _ both => ⟨.ifBranch both.1, both.2⟩
  | thenBranch h => exact (option h).imp fun _ both => ⟨.thenBranch both.1, both.2⟩
  | elseBranch h => exact (option h).imp fun _ both => ⟨.elseBranch both.1, both.2⟩
  | dependent h => exact (table h).imp fun _ both => ⟨.dependent both.1, both.2⟩
  | pattern h => exact (table h).imp fun _ both => ⟨.pattern both.1, both.2⟩
  | definition h => exact (table h).imp fun _ both => ⟨.definition both.1, both.2⟩

end Schema

namespace Arena

/-- The schema with every reference replaced by what it stands for, except where that is being
expanded already: there anything is admitted. `trail` holds the names on the way from the root. -/
def expand (arena : Arena) (trail : List String) (r : SchemaRef) : SchemaRef :=
  match r with
  | .item s => .item (s.mapHeld fun c _held => arena.expand trail c)
  | .ref path =>
    match _h : (Pointer.schemaName? path).map arena.concrete with
    | some (.ok (t, s)) =>
      if _busy : trail.contains t then .item {} else arena.expand (t :: trail) (.item s)
    | _ => .ref path
termination_by ((arena.unexpanded trail).length, sizeOf r)
decreasing_by
  · refine Prod.Lex.right _ ?_
    have := _held.sizeOf_lt
    simp only [Referenced.item.sizeOf_spec]
    omega
  · obtain ⟨n, _, found⟩ := Option.map_eq_some_iff.mp _h
    obtain ⟨_, stored⟩ := concrete_eq_ok.mp found
    have known := contains_of_find? stored
    exact Prod.Lex.left _ _ (unexpanded_cons_lt known (Bool.eq_false_iff.mpr _busy))

variable {arena : Arena} {trail : List String}

theorem expand_item (s : Schema) :
    arena.expand trail (.item s) = .item (s.mapChildren (arena.expand trail)) := by
  rw [expand, Schema.mapHeld_eq]

theorem expand_ref {path n t : String} {s : Schema} (named : Pointer.schemaName? path = some n)
    (stands : arena.StandsFor n t) (stored : arena.find? t = some (.item s)) :
    arena.expand trail (.ref path) =
      if trail.contains t then .item {} else arena.expand (t :: trail) (.item s) := by
  have found : (Pointer.schemaName? path).map arena.concrete = some (.ok (t, s)) := by
    rw [named]
    exact congrArg some (concrete_eq_ok.mpr ⟨stands, stored⟩)
  generalize cut : (if trail.contains t then _ else _) = result
  rw [expand]
  split
  · rename_i given
    rw [found] at given
    cases given
    exact cut
  · rename_i other
    exact absurd found (other t s)

/-- Expansion leaves no reference. -/
theorem expand_mentions (closed : arena.Closed) (trail : List String) {r : SchemaRef}
    (covers : arena.Covers r) (path : String) : ¬ (arena.expand trail r).Mentions path := by
  induction trail, r using arena.expansion_induction with
  | item trail s ih =>
    rw [expand_item]
    intro mentioned
    cases mentioned with
    | inside held mentioned =>
      obtain ⟨c, original, rfl⟩ := Schema.holds_mapChildren held
      exact ih c original (covers.inside original) mentioned
  | ref trail path' ih =>
    obtain ⟨n, t, named, stands⟩ := covers path' (.here path')
    obtain ⟨s, stored⟩ := stands.2
    rw [expand_ref named stands stored]
    cases cut : trail.contains t with
    | true =>
      intro mentioned
      cases mentioned with
      | inside held _ =>
        have children : Schema.children {} = [] := rfl
        simp [Schema.holds_iff_child, children] at held
    | false =>
      exact ih t s (contains_of_find? stored) cut (closed t _ stored)

end Arena

namespace Zod

namespace Recipe

variable {f : SchemaRef → SchemaRef} {sub : Answers} {b : Bool} {s : Schema} {name : String}

theorem ofObject_mapChildren (o : Options) :
    (ofObject o (s.mapChildren f) name).answer sub b =
      (ofObject o s name).answer (fun b c => sub b (f c)) b := by
  unfold ofObject Schema.mapChildren Keyed.mapValues
  simp only [List.isEmpty_map]
  split
  · cases s.additionalProperties with
    | none => rfl
    | some a =>
      cases a with
      | allowed admits => cases admits <;> rfl
      | schema c => simp only [Option.map_some, answer_bind, answer_validator, answer_pure]
  · simp only [answer_bind, answer_mapM, answer_validator, answer_pure, answer_isStrict,
      List.mapM_map]
    rfl

theorem ofArray_mapChildren :
    (ofArray (s.mapChildren f) name).answer sub b =
      (ofArray s name).answer (fun b c => sub b (f c)) b := by
  unfold ofArray Schema.mapChildren
  dsimp only
  cases s.items with
  | none => rfl
  | some i => simp only [Option.map_some, answer_bind, answer_validator, answer_pure]

theorem ofType_mapChildren (o : Options) (t : TypeName) :
    (ofType o (s.mapChildren f) t name).answer sub b =
      (ofType o s t name).answer (fun b c => sub b (f c)) b := by
  cases t with
  | array => exact ofArray_mapChildren
  | object => exact ofObject_mapChildren o
  | _ => rfl

theorem ofMembers_map (label : Nat → String) (members : List SchemaRef) :
    (ofMembers label (members.map f)).answer sub b =
      (ofMembers label members).answer (fun b c => sub b (f c)) b := by
  unfold ofMembers
  simp only [answer_mapM, List.zipIdx_map, List.mapM_map, Function.comp_def, answer_validator]
  rfl

theorem ofBase_mapChildren (o : Options) :
    (ofBase o (s.mapChildren f) name).answer sub b =
      (ofBase o s name).answer (fun b c => sub b (f c)) b := by
  have keywords : (s.mapChildren f).toKeywords = s.toKeywords := rfl
  have one : (s.mapChildren f).oneOf = s.oneOf.map f := rfl
  have any : (s.mapChildren f).anyOf = s.anyOf.map f := rfl
  have all : (s.mapChildren f).allOf = s.allOf.map f := rfl
  have properties : (s.mapChildren f).properties.isEmpty = s.properties.isEmpty := List.isEmpty_map
  have additional : (s.mapChildren f).additionalProperties.isSome = s.additionalProperties.isSome :=
    Option.isSome_map
  have items : (s.mapChildren f).items.isSome = s.items.isSome := Option.isSome_map
  unfold ofBase
  simp only [keywords, one, any, all, properties, additional, items, List.isEmpty_map]
  split
  · simp only [answer_bind, answer_pure, ofMembers_map]
  split
  · simp only [answer_bind, answer_pure, ofMembers_map]
  split
  · simp only [answer_bind, answer_pure, answer_lenient, ofMembers_map]
    split
    · rfl
    · simp only [answer_bind, answer_pure, ofObject_mapChildren]
  split
  · rfl
  split
  · rfl
  · exact ofType_mapChildren o _
  · split
    · rfl
    · simp only [answer_bind, answer_pure, answer_mapM, ofType_mapChildren]
  · split
    · exact ofObject_mapChildren o
    split
    · exact ofArray_mapChildren
    · rfl

theorem ofSchema_mapChildren (o : Options) (required : Bool) :
    (ofSchema o (s.mapChildren f) name required).answer sub b =
      (ofSchema o s name required).answer (fun b c => sub b (f c)) b := by
  unfold ofSchema
  simp only [answer_bind, ofBase_mapChildren]
  rfl

end Recipe

/-- Expanding references in place makes the validator of the expanded schema. -/
theorem Scope.validate_expand {g : Scope} (style : g.refs = .inline) (closed : g.arena.Closed)
    (items : ∀ b ∈ g.busy, ∃ s, g.arena.find? b = some (.item s)) {r : SchemaRef}
    (covers : g.arena.Covers r) (name : String) (required : Bool) :
    g.validate r name required =
      Scope.validate ⟨⟨[]⟩, g.options, g.refs, []⟩ (g.arena.expand g.busy r) name required := by
  obtain ⟨arena, options, refs, busy⟩ := g
  change refs = .inline at style
  change arena.Closed at closed
  change arena.Covers r at covers
  change ∀ b ∈ busy, ∃ s, arena.find? b = some (.item s) at items
  show _ = Scope.validate _ (arena.expand busy r) name required
  induction busy, r using arena.expansion_induction generalizing options name required with
  | item busy s ih =>
    rw [validate, validateSchema_eq, Arena.expand_item, validate, validateSchema_eq,
      Recipe.ofSchema_mapChildren]
    apply Recipe.ofSchema_congr
    intro b c name required held
    exact ih c held name required _ (covers.inside held) items
  | ref busy path ih =>
    obtain ⟨n, t, named, stands⟩ := covers path (.here path)
    obtain ⟨s, stored⟩ := stands.2
    rw [validate_reference style items named stands stored, Arena.expand_ref named stands stored]
    cases cut : busy.contains t with
    | true =>
      simp only [if_true]
      rw [validate, validateSchema_eq]
      cases required <;> rfl
    | false =>
      have known := Arena.contains_of_find? stored
      refine ih t s known cut name required options (closed t _ stored) fun b mem => ?_
      rcases List.mem_cons.mp mem with rfl | mem
      · exact ⟨s, stored⟩
      · exact items b mem

theorem validate_unreferenced (options : Options) {r : SchemaRef}
    (unreferenced : ∀ path, ¬ r.Mentions path) (name : String) (required : Bool) :
    ∃ v, Scope.validate ⟨⟨[]⟩, options, .inline, []⟩ r name required = .ok v ∧
      v.chain.models = [] := by
  have made : Outcome.Meets False (Validator.AllUses fun _ => False)
      (Scope.validate ⟨⟨[]⟩, options, .inline, []⟩ r name required) := by
    apply Scope.validate_inline (Validator.allUses_hereditary _) (fun r => ∀ path, ¬ r.Mentions path)
      rfl
    · intro s c none held path mentioned
      exact none path (.inside held mentioned)
    · intro busy path none
      exact absurd (.here path) (none path)
    · exact unreferenced
  obtain ⟨v, run, uses⟩ := made.total
  refine ⟨v, run, List.eq_nil_iff_forall_not_mem.mpr fun m mem => ?_⟩
  obtain ⟨_, none⟩ := uses.models mem
  exact none

namespace Generator

variable {g : Generator}

theorem generate_expand (style : g.refs = .inline) (closed : g.arena.Closed) {r : SchemaRef}
    (covers : g.arena.Covers r) (name : String) (required strict : Bool) :
    ∃ v, g.generate r name required ⟨[], strict⟩ = some (.ok v, ⟨[], strict⟩) ∧
      v.chain.models = [] ∧ (g.scope ⟨[], strict⟩).validate r name required = .ok v ∧
      Scope.validate ⟨⟨[]⟩, { g.options with strict }, .inline, []⟩ (g.arena.expand [] r) name
        required = .ok v := by
  have expands := Scope.validate_expand (g := g.scope ⟨[], strict⟩) style closed
    (fun b none => by cases none) covers name required
  have unreferenced := Arena.expand_mentions closed [] covers
  obtain ⟨v, run, unnamed⟩ :=
    validate_unreferenced { g.options with strict } unreferenced name required
  have made : (g.scope ⟨[], strict⟩).validate r name required = .ok v := by
    rw [expands]
    show Scope.validate ⟨⟨[]⟩, _, g.refs, []⟩ _ _ _ = _
    rw [style]
    exact run
  refine ⟨v, ?_, unnamed, made, run⟩
  rw [generate_eq, made]

theorem generate_reference (style : g.refs = .inline) {p : Progress}
    (items : ∀ b ∈ p.busy, ∃ s, g.arena.find? b = some (.item s)) {path n t : String} {s : Schema}
    (named : Pointer.schemaName? path = some n) (stands : g.arena.StandsFor n t)
    (stored : g.arena.find? t = some (.item s)) (name : String) (required : Bool) :
    (t ∈ p.busy → g.generate (.ref path) name required p =
      some (.ok ((Validator.ofCall "any").optionalUnless required), p)) ∧
    (t ∉ p.busy → ∃ result,
      g.generate (.item s) name required { p with busy := t :: p.busy } =
        some (result, { p with busy := t :: p.busy }) ∧
      g.generate (.ref path) name required p = some (result, p)) := by
  have reference :=
    (g.scope p).validate_reference style items named stands stored name required
  simp only [generate_eq, reference]
  constructor
  · intro busy
    have busy : (g.scope p).busy.contains t = true := List.contains_iff_mem.mpr busy
    rw [busy]
    rfl
  · intro idle
    have idle : (g.scope p).busy.contains t = false := by simpa [scope] using idle
    refine ⟨_, rfl, ?_⟩
    rw [idle]
    rfl

/-- Schemas of a resolved document can be validated without naming a model. -/
theorem generate_inline {doc : Document} {resolved : Resolved} (h : doc.resolve = .ok resolved)
    (options : Options) (strict : Bool) {r : SchemaRef} (known : ∀ path, r.Mentions path →
      ∃ n ∈ resolved.arena.names, Pointer.schemaName? path = some n)
    (name : String) (required : Bool) :
    let g : Generator := ⟨resolved.arena, options, .inline⟩
    (∃ v, g.generate r name required ⟨[], strict⟩ = some (.ok v, ⟨[], strict⟩) ∧
      v.chain.models = [] ∧
      Scope.validate ⟨resolved.arena, { options with strict }, .inline, []⟩ r name
        required = .ok v ∧
      Scope.validate ⟨⟨[]⟩, { options with strict }, .inline, []⟩ (resolved.arena.expand [] r) name
        required = .ok v) ∧
    (∀ p : Progress, (∀ b ∈ p.busy, ∃ s, resolved.arena.find? b = some (.item s)) →
      ∀ path n t s, Pointer.schemaName? path = some n → resolved.arena.StandsFor n t →
        resolved.arena.find? t = some (.item s) →
        (t ∈ p.busy → g.generate (.ref path) name required p =
          some (.ok ((Validator.ofCall "any").optionalUnless required), p)) ∧
        (t ∉ p.busy → ∃ result,
          g.generate (.item s) name required { p with busy := t :: p.busy } =
            some (result, { p with busy := t :: p.busy }) ∧
          g.generate (.ref path) name required p = some (result, p))) ∧
    (∀ (other : Generator) (calls : List Call) (p : Progress), ∃ results,
      other.generateAll calls p = some (results, p) ∧
      List.Forall₂ (fun c result => other.generate c.1 c.2.1 c.2.2 p = some (result, p))
        calls results) := by
  intro g
  have closed := Document.resolve_closed h
  have covers := Document.resolve_covers h known
  refine ⟨generate_expand rfl closed covers name required strict, ?_, ?_⟩
  · intro p items path n t s named stands stored
    exact generate_reference rfl items named stands stored name required
  · intro other calls p
    refine ⟨_, generateAll_eq other calls p, ?_⟩
    rw [List.forall₂_map_right_iff, List.forall₂_same]
    intro c _
    exact generate_eq other c.1 c.2.1 c.2.2 p

end Generator

end Zod

def nodeSchema : Schema := { properties := [("next", .ref "#/components/schemas/Node")] }

def nodes : Document where
  openapi := "3.0.3"
  info := { title := "Nodes", version := "1" }
  components := some { schemas := [("Node", .item nodeSchema)] }

theorem node_name : Pointer.schemaName? "#/components/schemas/Node" = some "Node" := by decide

theorem nodes_resolve : ∃ resolved, nodes.resolve = .ok resolved ∧
    resolved.arena.schemas = [("Node", .item nodeSchema)] := by
  have declared : ∀ {n s}, (n, s) ∈ nodes.declaredSchemas → s = .item nodeSchema := by
    intro n s listed
    cases List.mem_singleton.mp listed
    rfl
  have flat : nodeSchema.Flat := holder_flat
  have run := Document.resolve_of_plain (Document.resolvePaths_nil rfl)
    (fun n s listed => ⟨_, declared listed⟩)
    (fun n s listed path mentioned => by
      cases declared listed
      cases holder_holds.mp (flat.mentions_iff.mp mentioned)
      exact ⟨"Node", node_name, rfl⟩)
    (fun n s listed t d nested given => by
      cases declared listed
      cases flat.nests_iff.mp nested
      cases given)
  have spelled : normalReference "#/components/schemas/Node" = "#/components/schemas/Node" := by
    decide
  refine ⟨_, run, ?_⟩
  show Keyed.mapValues normalRef [("Node", .item nodeSchema)] = _
  simp [Keyed.mapValues, normalRef, normalSchema, normalTable, normalList, normalOption,
    normalAdditional, nodeSchema, spelled]

namespace Zod.Generator

theorem generate_inline_nodes : ∃ resolved, nodes.resolve = .ok resolved ∧
    generate ⟨resolved.arena, ⟨.fourth, false, .all false⟩, .inline⟩
      (.ref "#/components/schemas/Node") "node" true ⟨[], false⟩ =
      some (.ok ⟨.call .start "object" (.object
        [("next", (Validator.ofCall "any").call "optional" .none)]), []⟩, ⟨[], false⟩) := by
  obtain ⟨resolved, run, schemas⟩ := nodes_resolve
  have stored : resolved.arena.find? "Node" = some (.item nodeSchema) := by
    unfold Arena.find?
    rw [schemas]
    rfl
  have stands : resolved.arena.StandsFor "Node" "Node" := .item stored
  have expanded : resolved.arena.expand [] (.ref "#/components/schemas/Node") =
      .item { properties := [("next", .item {})] } := by
    have again : resolved.arena.expand ["Node"] (.ref "#/components/schemas/Node") = .item {} :=
      Arena.expand_ref node_name stands stored
    rw [Arena.expand_ref node_name stands stored]
    show resolved.arena.expand ["Node"] (.item nodeSchema) = _
    rw [Arena.expand_item]
    simp [Schema.mapChildren, Keyed.mapValues, nodeSchema, again]
  obtain ⟨⟨v, made, _, _, plain⟩, _⟩ := generate_inline run ⟨.fourth, false, .all false⟩ false
    (r := .ref "#/components/schemas/Node") (by
      intro path mentioned
      cases mentioned
      exact ⟨"Node", Keyed.mem_keys_of_find? stored, node_name⟩) "node" true
  rw [expanded, Scope.validate, Scope.validateSchema_eq] at plain
  have any : ∀ b name required, Scope.sub ⟨⟨[]⟩, ⟨.fourth, false, .all false⟩, .inline, []⟩ b
      (.item {}) name required = .ok ((Validator.ofCall "any").optionalUnless required) := by
    intro b name required
    unfold Scope.sub
    rw [Scope.validate, Scope.validateSchema_eq]
    cases required <;> rfl
  simp only [Recipe.ofSchema, Recipe.ofBase, Recipe.ofObject, List.isEmpty_nil, List.isEmpty_cons,
    Bool.not_true, Bool.not_false, Bool.false_eq_true, if_false, if_true, Bool.true_or,
    Recipe.answer_bind, Recipe.answer_validator, Recipe.answer_pure,
    Recipe.answer_isStrict, List.mapM_cons, List.mapM_nil, any] at plain
  refine ⟨resolved, run, ?_⟩
  rw [made, ← plain]
  rfl

end Zod.Generator

end TypedClients
