import TypedClients.Proofs.Hereditary

namespace TypedClients.Zod

-- The models that a chain mentions, and whether the mention is put off: inside `lazy` a model is
-- read only when the chain is used.

mutual

def Chain.uses : Chain → List (String × Bool)
  | .start => []
  | .name c n => c.uses ++ [(n, false)]
  | .call c _ a => c.uses ++ a.uses

def Argument.uses : Argument → List (String × Bool)
  | .deferred model _ => [(model, true)]
  | .validator v => v.uses
  | .several vs => usesOfMembers vs
  | .array vs => usesOfMembers vs
  | .object fields => usesOfFields fields
  | _ => []

def Validator.uses : Validator → List (String × Bool)
  | ⟨c, _⟩ => c.uses

def usesOfMembers : List Validator → List (String × Bool)
  | [] => []
  | v :: rest => v.uses ++ usesOfMembers rest

def usesOfFields : List (String × Validator) → List (String × Bool)
  | [] => []
  | (_, v) :: rest => v.uses ++ usesOfFields rest

end

/-- The identifiers that are read as soon as the chain is. -/
def Chain.bare (c : Chain) : List String := (c.uses.filter fun u => !u.2).map Prod.fst

theorem Chain.mem_bare {c : Chain} {m : String} : m ∈ c.bare ↔ (m, false) ∈ c.uses := by
  simp [bare]

mutual

theorem Chain.models_eq (c : Chain) : c.models = c.uses.map Prod.fst := by
  match c with
  | .start => rfl
  | .name c n => simp [Chain.models, Chain.uses, c.models_eq]
  | .call c f a => simp [Chain.models, Chain.uses, c.models_eq, a.models_eq]

theorem Argument.models_eq (a : Argument) : a.models = a.uses.map Prod.fst := by
  match a with
  | .none => rfl
  | .source _ => rfl
  | .constant _ => rfl
  | .deferred _ _ => rfl
  | .validator v => exact modelsOfValidator_eq v
  | .several vs => exact modelsOfMembers_eq vs
  | .array vs => exact modelsOfMembers_eq vs
  | .object fields => exact modelsOfFields_eq fields

theorem modelsOfValidator_eq (v : Validator) : modelsOfValidator v = v.uses.map Prod.fst := by
  match v with
  | ⟨c, _⟩ => exact c.models_eq

theorem modelsOfMembers_eq (vs : List Validator) :
    modelsOfMembers vs = (usesOfMembers vs).map Prod.fst := by
  match vs with
  | [] => rfl
  | v :: rest =>
    simp [modelsOfMembers, usesOfMembers, modelsOfValidator_eq v, modelsOfMembers_eq rest]

theorem modelsOfFields_eq (fields : List (String × Validator)) :
    modelsOfFields fields = (usesOfFields fields).map Prod.fst := by
  match fields with
  | [] => rfl
  | (_, v) :: rest =>
    simp [modelsOfFields, usesOfFields, modelsOfValidator_eq v, modelsOfFields_eq rest]

end

theorem Validator.uses_eq (v : Validator) : v.uses = v.chain.uses := by
  cases v
  rfl

theorem mem_usesOfMembers {u : String × Bool} {vs : List Validator} :
    u ∈ usesOfMembers vs ↔ ∃ v ∈ vs, u ∈ v.chain.uses := by
  induction vs with
  | nil => simp [usesOfMembers]
  | cons v rest ih => simp [usesOfMembers, ih, v.uses_eq]

theorem mem_usesOfFields {u : String × Bool} {fields : List (String × Validator)} :
    u ∈ usesOfFields fields ↔ ∃ f ∈ fields, u ∈ f.2.chain.uses := by
  induction fields with
  | nil => simp [usesOfFields]
  | cons f rest ih => simp [usesOfFields, ih, f.2.uses_eq]

namespace Validator

def AllUses (P : String × Bool → Prop) (v : Validator) : Prop := ∀ u ∈ v.chain.uses, P u

variable {P : String × Bool → Prop} {v : Validator}

theorem AllUses.models (h : v.AllUses P) {m : String} (mem : m ∈ v.chain.models) :
    ∃ deferred, P (m, deferred) := by
  rw [Chain.models_eq] at mem
  obtain ⟨⟨_, deferred⟩, used, rfl⟩ := List.mem_map.mp mem
  exact ⟨deferred, h _ used⟩

theorem AllUses.of_models (h : ∀ m ∈ v.chain.models, ∀ deferred, P (m, deferred)) :
    v.AllUses P := by
  intro u used
  apply h
  rw [Chain.models_eq]
  exact List.mem_map_of_mem used

theorem AllUses.plain (h : v.chain.uses = []) : v.AllUses P := by
  intro u mem
  rw [h] at mem
  cases mem

theorem call_uses (v : Validator) (function : String) :
    (v.call function .none).chain.uses = v.chain.uses := List.append_nil _

theorem callConstant_uses (v : Validator) (function name : String) (value : ConstantValue) :
    (v.callConstant function name value).chain.uses = v.chain.uses := List.append_nil _

theorem allUses_hereditary (P : String × Bool → Prop) : Hereditary (AllUses P) where
  nothing := .plain rfl
  ofCall _ := .plain rfl
  ofSource _ _ := .plain rfl
  call h _ u mem := h u (call_uses _ _ ▸ mem)
  callConstant h _ _ _ u mem := h u (callConstant_uses _ _ _ _ ▸ mem)
  alternatives h u mem := by
    obtain ⟨member, listed, mem⟩ := mem_usesOfMembers.mp mem
    obtain ⟨v, own, rfl⟩ := List.mem_map.mp listed
    exact h v own u mem
  and first second u mem := by
    rcases List.mem_append.mp mem with mem | mem
    · exact first u mem
    · exact second u mem
  arrayOf h := h
  recordOf h u mem := by
    obtain ⟨member, listed, mem⟩ := mem_usesOfMembers.mp mem
    rcases List.mem_cons.mp listed with rfl | listed
    · cases mem
    · have same := List.mem_singleton.mp listed
      subst same
      exact h u mem
  fields h _ u mem := by
    obtain ⟨field, listed, mem⟩ := mem_usesOfFields.mp mem
    obtain ⟨f, own, rfl⟩ := List.mem_map.mp listed
    exact h f own u mem

end Validator

end TypedClients.Zod
