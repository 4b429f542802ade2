import TypedClients.Proofs.Validators

namespace TypedClients.Zod

structure Progress where
  busy : List String := []
  strict : Bool

structure Generator where
  arena : Arena
  options : Options
  refs : RefStyle

namespace Progress

def enter (p : Progress) : Option String → Progress × Bool
  | some e => if p.busy.contains e then (p, false) else ({ p with busy := e :: p.busy }, true)
  | none => (p, false)

def leave (p : Progress) (entered : Bool) : Option String → Progress
  | some e => if entered then { p with busy := p.busy.filter (· != e) } else p
  | none => p

variable {p : Progress} {n : String}

theorem enter_fresh (h : p.busy.contains n = false) :
    p.enter (some n) = (⟨n :: p.busy, p.strict⟩, true) := by
  unfold enter
  simp only [h]
  rfl

theorem leave_fresh (h : p.busy.contains n = false) :
    leave ⟨n :: p.busy, p.strict⟩ true (some n) = p := by
  have others : p.busy.filter (· != n) = p.busy := by
    apply List.filter_eq_self.mpr
    intro m mem
    rw [bne_iff_ne]
    rintro rfl
    rw [List.contains_iff_mem.mpr mem] at h
    cases h
  unfold leave
  simp [others]

end Progress

namespace Generator

def scope (g : Generator) (p : Progress) : Scope :=
  ⟨g.arena, { g.options with strict := p.strict }, g.refs, p.busy⟩

-- The progress of a call is given by name: the call is a function of what is asked for.

mutual

def generate (g : Generator) (r : SchemaRef) (name : String) (required : Bool) (p : Progress) :
    Option (Except ValidateError Validator × Progress) :=
  match r with
  | .item s => (g.follow (p := p)) (Recipe.ofSchema g.options s name required)
  | .ref path =>
    match g.refs with
    | .named current sharedFile =>
      some (((g.scope p).namedModel current sharedFile path).map (.optionalUnless required), p)
    | .inline =>
      match g.arena.deref p.busy (.ref path) with
      | .error e => some (.error (.resolve e), p)
      | .ok (.cycle _) => some (.ok ((Validator.ofCall "any").optionalUnless required), p)
      | .ok (.schema entry s) => do
        let (inside, entered) := p.enter entry
        let (result, after) ← (g.follow (p := inside)) (Recipe.ofSchema g.options s name required)
        return (result, after.leave entered entry)
partial_fixpoint

def follow (g : Generator) {α : Type} (x : Recipe α) (p : Progress) :
    Option (Except ValidateError α × Progress) :=
  match x with
  | .done a => some (.ok a, p)
  | .part c name required next => do
    let (result, p) ← (g.generate (p := p)) c name required
    match result with
    | .ok v => (g.follow (p := p)) (next v)
    | .error e => some (.error e, p)
  | .strict next => (g.follow (p := p)) (next p.strict)
  | .leniently body next => do
    let (result, after) ← (g.follow (p := { p with strict := false })) body
    let after := { after with strict := p.strict }
    match result with
    | .ok vs => (g.follow (p := after)) (next vs)
    | .error e => some (.error e, after)
partial_fixpoint

end

variable {g : Generator} {α : Type} {busy : List String}

theorem follow_eq {Ask : SchemaRef → Prop} {P : Validator → Prop} {Q : α → Prop} {x : Recipe α}
    (sound : x.Sound Ask P Q) (all : ∀ v, P v)
    (known : ∀ c name required b, Ask c → g.generate c name required ⟨busy, b⟩ =
      some ((g.scope ⟨busy, b⟩).validate c name required, ⟨busy, b⟩)) (strict : Bool) :
    g.follow x ⟨busy, strict⟩ =
      some (x.answer (g.scope ⟨busy, strict⟩).sub strict, ⟨busy, strict⟩) := by
  induction x generalizing strict with
  | done a =>
    rw [follow]
    rfl
  | part c name required next ih =>
    rw [follow]
    beta_reduce
    rw [known c name required strict sound.1, Recipe.answer]
    have same : (g.scope ⟨busy, strict⟩).sub strict c name required =
        (g.scope ⟨busy, strict⟩).validate c name required := rfl
    rw [same]
    cases (g.scope ⟨busy, strict⟩).validate c name required with
    | error e => rfl
    | ok v => exact ih v (sound.2 v (all v)) strict
  | strict next ih =>
    rw [follow]
    exact ih strict (sound strict) strict
  | leniently body next ih_body ih =>
    -- Strictness is put back whether or not the body succeeds.
    have parts := ih_body sound.1 false
    rw [follow]
    simp only [parts, Recipe.answer]
    have same : (g.scope ⟨busy, false⟩).sub = (g.scope ⟨busy, strict⟩).sub := rfl
    rw [same]
    cases body.answer (g.scope ⟨busy, strict⟩).sub false with
    | error e => rfl
    | ok vs => exact ih vs (sound.2 vs fun v _ => all v) strict

theorem follow_schema {g : Generator} {busy : List String} {s : Schema} (strict : Bool)
    (known : ∀ c name required b, s.Holds c → g.generate c name required ⟨busy, b⟩ =
      some ((g.scope ⟨busy, b⟩).validate c name required, ⟨busy, b⟩))
    (name : String) (required : Bool) :
    g.follow (Recipe.ofSchema g.options s name required) ⟨busy, strict⟩ =
      some ((g.scope ⟨busy, strict⟩).validateSchema s name required, ⟨busy, strict⟩) := by
  rw [follow_eq (Recipe.ofSchema_asks g.options s name required) (fun _ => trivial) known,
    Scope.validateSchema_eq]
  rfl

/-- What is being expanded and whether members are strict is the same after every call as before,
whether the call succeeds or fails, and the call always ends. -/
theorem generate_eq (g : Generator) (r : SchemaRef) (name : String) (required : Bool)
    (p : Progress) :
    g.generate r name required p = some ((g.scope p).validate r name required, p) := by
  obtain ⟨busy, strict⟩ := p
  induction busy, r using g.arena.expansion_induction generalizing strict name required with
  | item busy s ih =>
    rw [generate, Scope.validate]
    apply follow_schema strict
    intro c name required b held
    exact ih c held name required b
  | ref busy path ih =>
    rw [generate]
    cases style : g.refs with
    | named current sharedFile => rw [Scope.validate_ref style]
    | inline =>
      rw [Scope.validate_expanded style]
      show _ = some (match g.arena.deref busy (.ref path) with
        | .error e => _
        | .ok (.cycle _) => _
        | .ok (.schema entry s) => _, _)
      cases found : g.arena.deref busy (.ref path) with
      | error e => rfl
      | ok d =>
        cases d with
        | cycle n => rfl
        | schema entry s =>
          rcases Arena.derefFrom_schema found with ⟨_, none, _⟩ | ⟨n, rfl, known, fresh⟩
          · cases none
          have inside := ih n s known fresh name required strict
          rw [generate, Scope.validate] at inside
          have entered := Progress.enter_fresh (p := ⟨busy, strict⟩) fresh
          have left := Progress.leave_fresh (p := ⟨busy, strict⟩) fresh
          simp only [entered, inside]
          show some (_, Progress.leave _ true (some n)) = _
          rw [left]
          rfl

abbrev Call : Type := SchemaRef × String × Bool

/-- One call after the other, whether they succeed or fail. -/
def generateAll (g : Generator) :
    List Call → Progress → Option (List (Except ValidateError Validator) × Progress)
  | [], p => some ([], p)
  | (r, name, required) :: rest, p => do
    let (result, p) ← g.generate r name required p
    let (others, p) ← g.generateAll rest p
    return (result :: others, p)

theorem generateAll_eq (g : Generator) (calls : List Call) (p : Progress) :
    g.generateAll calls p =
      some (calls.map fun c => (g.scope p).validate c.1 c.2.1 c.2.2, p) := by
  induction calls with
  | nil => rfl
  | cons c rest ih =>
    obtain ⟨r, name, required⟩ := c
    rw [generateAll, generate_eq]
    simp only [Option.bind_eq_bind, Option.bind_some, ih]
    rfl

end Generator
end TypedClients.Zod
