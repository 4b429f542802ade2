import TypedClients.Proofs.Layout
import TypedClients.Proofs.ModelFiles
import TypedClients.Proofs.Resolution
import TypedClients.Proofs.Run

namespace TypedClients

open Zod

namespace ModelContext

/-- A model is read while another is being declared: a reference from the one to the other is
written as a bare identifier, not inside `lazy`. -/
def RefersEagerly (c : ModelContext) (a b : String) : Prop :=
  ∃ s v path, c.arena.find? a = some s ∧
    (modelScope c a).validate s (modelName a) true = .ok v ∧
    s.Mentions path ∧ Pointer.schemaName? path = some b ∧
    (modelScope c a).namedModel (some a) c.sharedFile path = .ok (.ofModel (modelName b)) ∧
    modelName b ∈ v.chain.bare

def defers (c : ModelContext) (a b : String) : Bool :=
  (modelScope c a).leadsBack a b || (c.sharedFile && decide (modelName a < modelName b))

variable {c : ModelContext} {a b path : String}

theorem namedModel_eq (named : Pointer.schemaName? path = some b) :
    (modelScope c a).namedModel (some a) c.sharedFile path =
      .ok (if c.defers a b then
        ⟨.call .start "lazy" (.deferred (modelName b) ((modelScope c a).leadsBack a b)), []⟩
      else .ofModel (modelName b)) := by
  unfold Scope.namedModel defers
  rw [named]
  dsimp only
  split <;> rfl

theorem namedModel_bare (named : Pointer.schemaName? path = some b) :
    (modelScope c a).namedModel (some a) c.sharedFile path = .ok (.ofModel (modelName b)) ↔
      c.defers a b = false := by
  rw [namedModel_eq named]
  cases c.defers a b with
  | false => simp
  | true => simp [Validator.ofModel, Chain.model]

theorem leadsBack_iff :
    (modelScope c a).leadsBack a b = true ↔ b = a ∨ Relation.TransGen c.arena.Edge b a := by
  unfold Scope.leadsBack
  rw [Bool.or_eq_true, beq_iff_eq, List.contains_iff_mem]
  exact or_congr_right Arena.mem_reachableFrom

theorem RefersEagerly.defers_eq (h : c.RefersEagerly a b) : c.defers a b = false := by
  obtain ⟨_, _, _, _, _, _, named, bare, _⟩ := h
  exact (namedModel_bare named).mp bare

theorem RefersEagerly.forward (h : c.RefersEagerly a b) :
    a ≠ b ∧ ¬ Relation.TransGen c.arena.Edge b a := by
  have put := (Bool.or_eq_false_iff.mp h.defers_eq).1
  have ahead : ¬ (b = a ∨ Relation.TransGen c.arena.Edge b a) := by
    rw [← leadsBack_iff, put]
    exact Bool.false_ne_true
  exact ⟨fun same => ahead (.inl same.symm), fun back => ahead (.inr back)⟩

theorem RefersEagerly.name_lt (h : c.RefersEagerly a b) (shared : c.sharedFile = true)
    (different : modelName a ≠ modelName b) : modelName b < modelName a := by
  have later := (Bool.or_eq_false_iff.mp h.defers_eq).2
  rw [shared, Bool.true_and, decide_eq_false_iff_not, String.not_lt] at later
  by_contra above
  exact different (String.le_antisymm (String.not_lt.mp above) later)

/-- Every reference in a stored schema is the one spelling of the name of a stored schema. -/
def Proper (c : ModelContext) : Prop :=
  ∀ n s, c.arena.find? n = some s → ∀ path, s.Mentions path → c.arena.Canonical path

theorem RefersEagerly.edge (proper : c.Proper) (h : c.RefersEagerly a b) : c.arena.Edge a b := by
  obtain ⟨s, _, path, found, _, mentioned, named, _⟩ := h
  obtain ⟨n, known, _, again⟩ := proper a s found path mentioned
  have same : n = b := Option.some.inj (again.symm.trans named)
  exact ⟨s, found, .reference mentioned named, same ▸ known⟩

/-- Eager references follow the references of the arena, and none of them leads back. -/
theorem RefersEagerly.acyclic (proper : c.Proper) : ¬ Relation.TransGen c.RefersEagerly a a := by
  intro cycle
  obtain ⟨b, first, rest⟩ := Relation.TransGen.head'_iff.mp cycle
  obtain ⟨different, ahead⟩ := first.forward
  -- The rest of the circle leads from `b` back to `a` by references; the first step rules that out.
  have back : Relation.ReflTransGen c.arena.Edge b a :=
    Relation.ReflTransGen.mono (fun _ _ eager => eager.edge proper) _ _ rest
  rcases Relation.reflTransGen_iff_eq_or_transGen.mp back with same | leads
  · exact different same
  · exact ahead leads

theorem validate_ok (proper : c.Proper) {s : SchemaRef} (found : c.arena.find? a = some s) :
    ∃ v, (modelScope c a).validate s (modelName a) true = .ok v ∧
      v.AllUses fun u => ∃ path b, s.Mentions path ∧ Pointer.schemaName? path = some b ∧
        u = (modelName b, c.defers a b) := by
  apply Outcome.Meets.total
  apply Scope.validate_named (Validator.allUses_hereditary _) rfl
  intro path mentioned
  obtain ⟨b, _, _, named⟩ := proper a s found path mentioned
  rw [namedModel_eq named]
  intro u mem
  refine ⟨path, b, mentioned, named, ?_⟩
  cases put : c.defers a b with
  | true =>
    rw [put] at mem
    exact List.mem_singleton.mp mem
  | false =>
    rw [put] at mem
    exact List.mem_singleton.mp mem

/-- What an expression reads at once is what its schema refers to eagerly. -/
theorem mem_bare_iff (proper : c.Proper) {s : SchemaRef} {v : Validator} {i : String}
    (found : c.arena.find? a = some s)
    (run : (modelScope c a).validate s (modelName a) true = .ok v) :
    i ∈ v.chain.bare ↔ ∃ b, c.RefersEagerly a b ∧ modelName b = i := by
  constructor
  · intro mem
    obtain ⟨w, again, uses⟩ := validate_ok proper found
    cases run.symm.trans again
    obtain ⟨path, b, mentioned, named, same⟩ := uses _ (Chain.mem_bare.mp mem)
    obtain ⟨rfl, put⟩ := Prod.mk.inj same
    exact ⟨b, ⟨s, v, path, found, run, mentioned, named,
      (namedModel_bare named).mpr put.symm, mem⟩, rfl⟩
  · intro given
    obtain ⟨b, ⟨t, w, _, again, other, _, _, _, mem⟩, rfl⟩ := given
    cases found.symm.trans again
    cases run.symm.trans other
    exact mem

theorem emitModels_bare (proper : c.Proper) {names : List String}
    (stored : ∀ n ∈ names, n ∈ c.arena.names) :
    (emitModels Zod.emitter c names).2 = [] ∧
    List.Forall₂ (fun a e => ∃ s v, c.arena.find? a = some s ∧
      (modelScope c a).validate s (modelName a) true = .ok v ∧ modelEntry c a s = .ok e ∧
      ∀ i, i ∈ v.chain.bare ↔ ∃ b, c.RefersEagerly a b ∧ modelName b = i) names
        (emitModels Zod.emitter c names).1 := by
  have clean : (emitModels Zod.emitter c names).2 = [] := by
    apply emitModels_total
    intro n s found
    obtain ⟨v, run, _⟩ := validate_ok proper found
    have made : ∃ e, modelEntry c n s = .ok e := by
      rw [modelEntry, run]
      exact ⟨_, rfl⟩
    obtain ⟨e, made⟩ := made
    exact ⟨e, Outcome.mapError_eq_ok.mpr made⟩
  refine ⟨clean, (emitModels_forall₂ ?_ clean).imp fun a e given => ?_⟩
  · exact fun n mem => Keyed.find?_of_mem_keys (stored n mem)
  · obtain ⟨s, found, emit⟩ := given
    obtain ⟨v, run, _⟩ := validate_ok proper found
    exact ⟨s, v, found, run, Outcome.mapError_eq_ok.mp emit, fun i =>
      mem_bare_iff proper found run⟩

/-- In a shared file a model stands behind those that its expression reads at once. -/
theorem assemble_eager (proper : c.Proper) {roots : List SchemaRef} {names : List String}
    (closed : c.arena.ClosedOver roots {n | n ∈ names})
    (unsplit : c.target.mode.splitsModels = false) {f : ModelFile}
    (file : f ∈ ModelFile.assemble (emitModels Zod.emitter c names).1) :
    f.entries.Perm (emitModels Zod.emitter c names).1 ∧
      ∀ a ∈ names, ∀ b, c.RefersEagerly a b → modelName a ≠ modelName b →
        f.Declares (modelName b) ∧
        ∀ (i j : Nat) (d e : ModelEntry), f.entries[i]? = some d → f.entries[j]? = some e →
          d.name = modelName b → e.name = modelName a → i < j := by
  obtain ⟨_, entries⟩ := emitModels_bare proper closed.stored
  have one_path : ∀ e ∈ (emitModels Zod.emitter c names).1,
      e.path = modelPath c.target.mode c.fileStem "" := by
    intro e mem
    obtain ⟨n, _, s, _, _, _, run, _⟩ := Outcome.mem_of_forall₂ entries mem
    rw [(modelEntry_eq_ok run).2.1]
    exact modelPath_shared unsplit _ _ _
  obtain ⟨perm, order⟩ := ModelFile.assemble_shared one_path file
  refine ⟨perm, fun a reached b eager different => ⟨?_, ?_⟩⟩
  · obtain ⟨s, found, refers, known⟩ := eager.edge proper
    have next : b ∈ names := closed.members a reached s found b known refers
    obtain ⟨e, listed, _, _, _, _, run, _⟩ := Outcome.mem_of_forall₂ entries.flip next
    exact ⟨e, perm.mem_iff.mpr listed, (modelEntry_eq_ok run).1⟩
  · intro i j d e at_i at_j first second
    apply order i j d e at_i at_j
    rw [first, second]
    -- Such a reference is written as a bare identifier only if the other name is the smaller one.
    apply eager.name_lt _ different
    show (!c.target.mode.splitsModels) = true
    rw [unsplit]
    rfl

end ModelContext

namespace Document

theorem resolve_proper {doc : Document} {resolved : Resolved} (h : doc.resolve = .ok resolved)
    (target : Target) (fileStem : String) :
    ModelContext.Proper ⟨resolved.arena, target, fileStem⟩ := by
  intro n s found path mentioned
  exact resolve_arena_canonical h (Keyed.mem_of_find? found) mentioned

/-- No model is read before it is initialized. The models of a resolved document can all be
declared. What their expressions read at once leads neither back to them nor around in a circle, and
where the models share a file it stands in front of them. -/
theorem resolve_models_initialized {doc : Document} {resolved : Resolved}
    (h : doc.resolve = .ok resolved) (target : Target) (fileStem : String)
    (roots : List SchemaRef) :
    let c : ModelContext := ⟨resolved.arena, target, fileStem⟩
    let names := resolved.arena.reachable roots
    let emitted := emitModels Zod.emitter c names
    emitted.2 = [] ∧
    List.Forall₂ (fun a e => ∃ s v, c.arena.find? a = some s ∧
      (modelScope c a).validate s (modelName a) true = .ok v ∧ modelEntry c a s = .ok e ∧
      ∀ i, i ∈ v.chain.bare ↔ ∃ b, c.RefersEagerly a b ∧ modelName b = i) names emitted.1 ∧
    (∀ a b, c.RefersEagerly a b → a ≠ b ∧ ¬ Relation.TransGen c.arena.Edge b a) ∧
    (∀ a, ¬ Relation.TransGen c.RefersEagerly a a) ∧
    (target.mode.splitsModels = false → ∀ f ∈ ModelFile.assemble emitted.1,
      f.entries.Perm emitted.1 ∧
      ∀ a ∈ names, ∀ b, c.RefersEagerly a b → modelName a ≠ modelName b →
        f.Declares (modelName b) ∧
        ∀ (i j : Nat) (d e : ModelEntry), f.entries[i]? = some d → f.entries[j]? = some e →
          d.name = modelName b → e.name = modelName a → i < j) := by
  intro c names emitted
  have proper : c.Proper := by
    intro n s found path mentioned
    exact resolve_arena_canonical h (Keyed.mem_of_find? found) mentioned
  have closed := resolved.arena.reachable_closed roots
  obtain ⟨clean, entries⟩ := ModelContext.emitModels_bare proper closed.stored
  refine ⟨clean, entries, fun a b eager => eager.forward, fun a =>
    ModelContext.RefersEagerly.acyclic proper, fun unsplit f file => ?_⟩
  exact ModelContext.assemble_eager proper closed unsplit file

end Document

section

variable {key path inner outer : String}

theorem ModelContext.holder_eager {c : ModelContext}
    (h : c.arena.schemas = [(inner, .item {}), (outer, .item (holder key path))])
    (named : Pointer.schemaName? path = some inner) (different : inner ≠ outer)
    (first : (c.sharedFile && decide (modelName outer < modelName inner)) = false) :
    c.RefersEagerly outer inner := by
  have found : c.arena.find? outer = some (.item (holder key path)) := by
    unfold Arena.find?
    rw [h]
    simp [Keyed.find?, different]
  have other : c.arena.find? inner = some (.item {}) := by
    unfold Arena.find?
    rw [h]
    simp [Keyed.find?]
  have ahead : (modelScope c outer).leadsBack outer inner = false := by
    rw [Bool.eq_false_iff, ne_eq, leadsBack_iff]
    rintro (same | back)
    · exact different same
    · obtain ⟨_, ⟨s, stored, refers, _⟩, _⟩ := Relation.TransGen.head'_iff.mp back
      rw [other] at stored
      cases stored
      cases refers with
      | reference mentioned => exact empty_holds (empty_flat.mentions_iff.mp mentioned)
      | mapping nested given =>
        cases empty_flat.nests_iff.mp nested
        cases given
  have put : c.defers outer inner = false := by
    rw [defers, ahead, first]
    rfl
  have bare := (namedModel_bare (c := c) named).mpr put
  let item : Validator := (Validator.ofModel (modelName inner)).call "optional" .none
  let v : Validator := ⟨.call .start "object" (.object [(key, item)]), []⟩
  have run : (modelScope c outer).validate (.item (holder key path)) (modelName outer) true =
      .ok v := by
    have asked : ∀ b name required, (modelScope c outer).sub b (.ref path) name required =
        .ok ((Validator.ofModel (modelName inner)).optionalUnless required) := by
      intro b name required
      refine (Scope.validate_ref rfl _ _ _).trans ?_
      exact congrArg (Except.map _) bare
    rw [Scope.validate, Scope.validateSchema_eq]
    simp [Recipe.ofSchema, Recipe.ofBase, Recipe.ofObject, holder, asked, v]
    rfl
  have mem : modelName inner ∈ v.chain.bare := by
    simp [v, item, Chain.bare, Chain.uses, Argument.uses, usesOfFields, Validator.uses,
      Validator.call, Validator.ofModel, Chain.model]
  have mentioned : SchemaRef.Mentions (.item (holder key path)) path :=
    .inside (holder_holds.mpr rfl) (.here _)
  exact ⟨_, v, _, found, run, mentioned, named, bare, mem⟩

end

def shelfSchema : Schema := { properties := [("book", .ref "#/components/schemas/Book")] }

def shelf : Document where
  openapi := "3.0.3"
  info := { title := "Shelf", version := "1" }
  components := some { schemas := [("Book", .item {}), ("Shelf", .item shelfSchema)] }

theorem shelf_book : Pointer.schemaName? "#/components/schemas/Book" = some "Book" := by decide

namespace Document

theorem shelf_resolve : ∃ resolved, shelf.resolve = .ok resolved ∧
    resolved.arena.schemas = [("Book", .item {}), ("Shelf", .item shelfSchema)] :=
  ⟨_, resolve_holder (resolvePaths_nil rfl) rfl rfl shelf_book (by decide), rfl⟩

theorem shelf_eager {arena : Arena}
    (h : arena.schemas = [("Book", .item {}), ("Shelf", .item shelfSchema)]) (target : Target)
    (fileStem : String) :
    ModelContext.RefersEagerly ⟨arena, target, fileStem⟩ "Shelf" "Book" := by
  have later : decide (modelName "Shelf" < modelName "Book") = false := by decide
  exact ModelContext.holder_eager h shelf_book (by decide) (by rw [later, Bool.and_false])

theorem resolve_models_initialized_shelf : ∃ resolved, shelf.resolve = .ok resolved ∧
    ∃ f ∈ ModelFile.assemble (emitModels Zod.emitter ⟨resolved.arena, { mode := .split }, "shelf"⟩
      (resolved.arena.reachable [.ref "#/components/schemas/Shelf"])).1,
    ∃ (i j : Nat) (d e : ModelEntry), f.entries[i]? = some d ∧ f.entries[j]? = some e ∧
      d.name = "Book" ∧ e.name = "Shelf" ∧ i < j := by
  obtain ⟨resolved, run, schemas⟩ := shelf_resolve
  have eager := shelf_eager schemas { mode := .split } "shelf"
  have book : modelName "Book" = "Book" := by decide +kernel
  have shelf : modelName "Shelf" = "Shelf" := by decide +kernel
  obtain ⟨_, entries, _, _, shared⟩ := resolve_models_initialized run { mode := .split } "shelf"
    [.ref "#/components/schemas/Shelf"]
  have reached : "Shelf" ∈ resolved.arena.reachable [.ref "#/components/schemas/Shelf"] := by
    apply (resolved.arena.reachable_closed _).roots _ List.mem_cons_self
    · rw [Arena.names, schemas]
      decide
    · exact .reference (.here _) (by decide)
  obtain ⟨e, emitted, s, _, _, _, made, _⟩ := Outcome.mem_of_forall₂ entries.flip reached
  obtain ⟨f, file, own⟩ := ModelFile.mem_of_assemble emitted
  obtain ⟨_, order⟩ := shared rfl f file
  obtain ⟨⟨d, first, d_name⟩, before⟩ := order "Shelf" reached "Book" eager (by decide +kernel)
  have e_name := (modelEntry_eq_ok made).1
  obtain ⟨i, at_i⟩ := List.mem_iff_getElem?.mp first
  obtain ⟨j, at_j⟩ := List.mem_iff_getElem?.mp own
  have earlier : i < j := before i j d e at_i at_j d_name e_name
  rw [book] at d_name
  rw [shelf] at e_name
  exact ⟨resolved, run, f, file, i, j, d, e, at_i, at_j, d_name, e_name, earlier⟩

end Document

end TypedClients
