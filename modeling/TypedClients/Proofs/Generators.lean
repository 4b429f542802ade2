import TypedClients.CommandLine.Execute
import TypedClients.Proofs.Endpoints
import TypedClients.Proofs.Validators

namespace TypedClients

/-- The texts of an operation speak only of models that its schemas mention. -/
def Backend.Faithful (b : Backend) : Prop :=
  ∀ (c : ClientContext) (e : Endpoint) (before after : Deferred) (t : ClientText)
    (shared : List (Referenced Parameter)) (op : Operation), e.BuiltFrom shared op →
      b.client c e before = (.ok t, after) → ∀ m ∈ t.models, ∃ s ∈ e.schemaRoots, s.MentionsModel m

def IsRelative (specifier : String) : Prop :=
  Text.hasLead "./" specifier = true ∨ Text.hasLead "../" specifier = true

/-- Entries have the name and the path of their schema and import only models that it mentions. -/
structure ModelEmitter.Faithful (em : ModelEmitter) : Prop where
  emit : ∀ (c : ModelContext) (name : String) (s : SchemaRef) (e : ModelEntry),
    em.emit c name s = .ok e → e.name = (Name.ofText name).pascal ∧ e.path = c.path name ∧
      ∀ m ∈ e.imports, s.MentionsModel m
  packages : ∀ d ∈ em.dependencies, ¬ IsRelative d.specifier

theorem TypeScript.emitter_faithful : TypeScript.emitter.Faithful where
  emit c name s e h := by
    cases h
    have named : (Model.ofSchema name s).name = Name.ofText name := by cases s <;> rfl
    refine ⟨?_, rfl, fun m mem => ?_⟩
    · show (Model.ofSchema name s).name.pascal = _
      rw [named]
    · exact Model.ofSchema_refs (List.mem_filter.mp mem).1
  packages d none := by cases none

theorem Zod.emitter_faithful : Zod.emitter.Faithful where
  emit c name s e h := modelEntry_eq_ok (Outcome.mapError_eq_ok.mp h)
  packages d mem := by
    have same := List.mem_singleton.mp mem
    rw [same]
    unfold IsRelative
    decide

theorem Client.fetch_text {c : ClientContext} {e : Endpoint} {before after : Deferred}
    {t : ClientText} (h : fetch.client c e before = (.ok t, after)) :
    t = ⟨fetchText e c.target, e.modelRefs⟩ := by
  have text : fetch.client c e before = (.ok ⟨fetchText e c.target, e.modelRefs⟩, before) := rfl
  rw [text, Prod.mk.injEq, Except.ok.injEq] at h
  exact h.1.symm

theorem Client.axios_text {style : AxiosStyle} {c : ClientContext} {e : Endpoint}
    {before after : Deferred} {t : ClientText}
    (h : (axios style).client c e before = (.ok t, after)) :
    t = ⟨axiosText e c.target, e.modelRefs⟩ := by
  have text : (axios style).client c e before = (.ok ⟨axiosText e c.target, e.modelRefs⟩,
      before.register e.name.camel (axiosDeferred e c.target (style.factory? c.unit))) := rfl
  rw [text, Prod.mk.injEq, Except.ok.injEq] at h
  exact h.1.symm

theorem Zod.backend_text {c : ClientContext} {e : Endpoint} {before after : Deferred}
    {t : ClientText} (h : backend.client c e before = (.ok t, after)) : clientText c e = .ok t :=
  Outcome.mapError_eq_ok.mp (congrArg Prod.fst h)

theorem Client.fetch_faithful : Client.fetch.Faithful := by
  intro c e before after t shared op built h m mem
  rw [fetch_text h] at mem
  exact built.modelRefs mem

theorem Client.axios_faithful (style : Client.AxiosStyle) : (Client.axios style).Faithful := by
  intro c e before after t shared op built h m mem
  rw [axios_text h] at mem
  exact built.modelRefs mem

theorem Zod.backend_faithful : Zod.backend.Faithful := by
  intro c e before after t shared op _ h m mem
  exact clientText_models (backend_text h) mem

namespace CommandLine

theorem registry_backend {id : String} {b : Backend} (h : registry.backend id = .ok b) :
    b = Client.fetch ∨ b = Client.axios .factory ∨ b = Client.axios .functions ∨
      b = Zod.backend := by
  unfold Registry.backend at h
  split at h
  · rename_i found
    cases h
    have listed := List.mem_of_find?_eq_some found
    have all : registry.backends =
        [Client.fetch, Client.axios .factory, Client.axios .functions, Zod.backend] := rfl
    simpa [all] using listed
  · cases h

theorem registry_emitter {id : String} {em : ModelEmitter} (h : registry.emitter id = .ok em) :
    em = TypeScript.emitter ∨ em = Zod.emitter := by
  unfold Registry.emitter at h
  split at h
  · rename_i found
    cases h
    have listed := List.mem_of_find?_eq_some found
    have all : registry.emitters = [TypeScript.emitter, Zod.emitter] := rfl
    simpa [all] using listed
  · cases h

theorem registry_backend_id {id : String} {b : Backend} (h : registry.backend id = .ok b) :
    b.id = id := by
  unfold Registry.backend at h
  split at h
  · rename_i found
    cases h
    have named := List.find?_some found
    exact eq_of_beq named
  · cases h

theorem registry_backend_named {id : String} {b : Backend} (h : registry.backend id = .ok b) :
    id = "fetch" ∧ b = Client.fetch ∨ id = "axios" ∧ b = Client.axios .factory ∨
      id = "axios-functions" ∧ b = Client.axios .functions ∨ id = "zod" ∧ b = Zod.backend := by
  have named := registry_backend_id h
  rcases registry_backend h with rfl | rfl | rfl | rfl
  · exact .inl ⟨named.symm, rfl⟩
  · exact .inr (.inl ⟨named.symm, rfl⟩)
  · exact .inr (.inr (.inl ⟨named.symm, rfl⟩))
  · exact .inr (.inr (.inr ⟨named.symm, rfl⟩))

def emitterOf : ModelKind → ModelEmitter
  | .typescript => TypeScript.emitter
  | .zod => Zod.emitter

theorem registry_emitter_kind {kind : ModelKind} {em : ModelEmitter}
    (h : registry.emitter kind.id = .ok em) : em = emitterOf kind := by
  cases kind with
  | typescript => exact Except.ok.inj (h.symm.trans rfl)
  | zod => exact Except.ok.inj (h.symm.trans rfl)

theorem registry_backend_faithful {id : String} {b : Backend} (h : registry.backend id = .ok b) :
    b.Faithful := by
  rcases registry_backend h with rfl | rfl | rfl | rfl
  · exact Client.fetch_faithful
  · exact Client.axios_faithful _
  · exact Client.axios_faithful _
  · exact Zod.backend_faithful

theorem registry_emitter_faithful {id : String} {em : ModelEmitter}
    (h : registry.emitter id = .ok em) : em.Faithful := by
  rcases registry_emitter h with rfl | rfl
  · exact TypeScript.emitter_faithful
  · exact Zod.emitter_faithful

end CommandLine

end TypedClients
