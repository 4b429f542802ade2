import Mathlib.Data.List.Forall2

namespace TypedClients.Outcome

variable {ε α β : Type}

theorem bind_eq_ok {x : Except ε α} {f : α → Except ε β} {b : β} :
    (x >>= f) = .ok b ↔ ∃ a, x = .ok a ∧ f a = .ok b := by
  cases x with
  | error e => simp [bind, Except.bind]
  | ok a => simp [bind, Except.bind]

theorem pure_eq_ok {a b : α} : (pure a : Except ε α) = .ok b ↔ b = a := by
  simp only [pure, Except.pure, Except.ok.injEq]
  exact eq_comm

theorem map_eq_ok {x : Except ε α} {f : α → β} {b : β} :
    x.map f = .ok b ↔ ∃ a, x = .ok a ∧ b = f a := by
  cases x with
  | error e => simp [Except.map]
  | ok a =>
    simp only [Except.map, Except.ok.injEq, exists_eq_left']
    exact eq_comm

theorem mapError_eq_ok {ε' : Type} {x : Except ε α} {f : ε → ε'} {a : α} :
    x.mapError f = .ok a ↔ x = .ok a := by
  cases x with
  | error e => simp [Except.mapError]
  | ok b => simp [Except.mapError]

theorem mapM_forall₂ {f : α → Except ε β} {as : List α} {bs : List β} (h : as.mapM f = .ok bs) :
    List.Forall₂ (fun a b => f a = .ok b) as bs := by
  induction as generalizing bs with
  | nil =>
    rw [List.mapM_nil, pure_eq_ok] at h
    subst h
    exact .nil
  | cons a rest ih =>
    rw [List.mapM_cons, bind_eq_ok] at h
    obtain ⟨b, first, h⟩ := h
    rw [bind_eq_ok] at h
    obtain ⟨others, later, h⟩ := h
    rw [pure_eq_ok] at h
    subst h
    exact .cons first (ih later)

theorem mapM_of_forall₂ {f : α → Except ε β} {as : List α} {bs : List β}
    (h : List.Forall₂ (fun a b => f a = .ok b) as bs) : as.mapM f = .ok bs := by
  induction h with
  | nil => rfl
  | cons first _ ih =>
    rw [List.mapM_cons, first, ih]
    rfl

theorem mapM_congr {f g : α → Except ε β} {as : List α} (h : ∀ a ∈ as, f a = g a) :
    as.mapM f = as.mapM g := by
  induction as with
  | nil => rfl
  | cons a rest ih =>
    rw [List.mapM_cons, List.mapM_cons, h a List.mem_cons_self,
      ih fun b listed => h b (List.mem_cons_of_mem _ listed)]

theorem mapM_total {f : α → Except ε β} {as : List α} (h : ∀ a ∈ as, ∃ b, f a = .ok b) :
    ∃ bs, as.mapM f = .ok bs := by
  induction as with
  | nil => exact ⟨[], rfl⟩
  | cons a rest ih =>
    obtain ⟨b, first⟩ := h a List.mem_cons_self
    obtain ⟨bs, later⟩ := ih fun c listed => h c (List.mem_cons_of_mem _ listed)
    refine ⟨b :: bs, ?_⟩
    rw [List.mapM_cons, first, later]
    rfl

theorem forM_eq_ok {f : α → Except ε Unit} {as : List α} :
    as.forM f = .ok () ↔ ∀ a ∈ as, f a = .ok () := by
  induction as with
  | nil => simp [List.forM, pure_eq_ok]
  | cons a rest ih =>
    show (f a >>= fun _ => rest.forM f) = _ ↔ _
    rw [bind_eq_ok, List.forall_mem_cons, ← ih]
    constructor
    · intro given
      obtain ⟨_, first, later⟩ := given
      exact ⟨first, later⟩
    · intro given
      exact ⟨(), given⟩

theorem mem_of_forall₂ {R : α → β → Prop} {as : List α} {bs : List β} (h : List.Forall₂ R as bs)
    {b : β} (mem : b ∈ bs) : ∃ a ∈ as, R a b := by
  induction h with
  | nil => cases mem
  | cons first _ ih =>
    rcases List.mem_cons.mp mem with rfl | mem
    · exact ⟨_, List.mem_cons_self, first⟩
    · obtain ⟨a, listed, related⟩ := ih mem
      exact ⟨a, List.mem_cons_of_mem _ listed, related⟩

theorem mem_of_mapM {f : α → Except ε β} {as : List α} {bs : List β} (h : as.mapM f = .ok bs)
    {b : β} (mem : b ∈ bs) : ∃ a ∈ as, f a = .ok b := mem_of_forall₂ (mapM_forall₂ h) mem

def Succeeds (x : Except ε α) : Prop := ∃ a, x = .ok a

section

variable {x : Except ε α}

theorem succeeds_bind {f : α → Except ε β} :
    Succeeds (x >>= f) ↔ ∃ a, x = .ok a ∧ Succeeds (f a) := by
  unfold Succeeds
  simp only [bind_eq_ok]
  constructor
  · intro given
    obtain ⟨b, a, first, later⟩ := given
    exact ⟨a, first, b, later⟩
  · intro given
    obtain ⟨a, first, b, later⟩ := given
    exact ⟨b, a, first, later⟩

theorem succeeds_bind_pure {f : α → β} : Succeeds (x >>= fun a => pure (f a)) ↔ Succeeds x := by
  rw [succeeds_bind]
  constructor
  · intro given
    obtain ⟨a, first, _⟩ := given
    exact ⟨a, first⟩
  · intro given
    obtain ⟨a, first⟩ := given
    exact ⟨a, first, f a, rfl⟩

theorem succeeds_bind_of {f : α → Except ε β} {P : Prop} (later : ∀ a, Succeeds (f a) ↔ P) :
    Succeeds (x >>= f) ↔ Succeeds x ∧ P := by
  rw [succeeds_bind]
  simp only [later]
  exact exists_and_right

theorem succeeds_map {f : α → β} : Succeeds (x.map f) ↔ Succeeds x := by
  cases x with
  | error e => simp [Succeeds, Except.map]
  | ok a => simp [Succeeds, Except.map]

theorem succeeds_mapM {f : α → Except ε β} {as : List α} :
    Succeeds (as.mapM f) ↔ ∀ a ∈ as, Succeeds (f a) := by
  constructor
  · intro given a listed
    obtain ⟨bs, run⟩ := given
    obtain ⟨b, _, first⟩ := mem_of_forall₂ (mapM_forall₂ run).flip listed
    exact ⟨b, first⟩
  · exact mapM_total

theorem fails_iff : (∃ e, x = .error e) ↔ ¬ Succeeds x := by
  cases x with
  | error e => simp [Succeeds]
  | ok a => simp [Succeeds]

end

/-- A result satisfies `P`; an error is possible only if `fails`. -/
def Meets (fails : Prop) (P : α → Prop) : Except ε α → Prop
  | .ok a => P a
  | .error _ => fails

variable {fails : Prop} {P : α → Prop} {Q : β → Prop} {x : Except ε α}

theorem Meets.bind {f : α → Except ε β} (h : Meets fails P x)
    (next : ∀ a, P a → Meets fails Q (f a)) : Meets fails Q (x >>= f) := by
  cases x with
  | error e => exact h
  | ok a => exact next a h

theorem Meets.map {f : α → β} (h : Meets fails P x) (image : ∀ a, P a → Q (f a)) :
    Meets fails Q (x.map f) := by
  cases x with
  | error e => exact h
  | ok a => exact image a h

theorem Meets.of_ok {a : α} (h : Meets fails P x) (ok : x = .ok a) : P a := by
  subst ok
  exact h

theorem Meets.total (h : Meets False P x) : ∃ a, x = .ok a ∧ P a := by
  cases x with
  | error e => exact h.elim
  | ok a => exact ⟨a, rfl, h⟩

theorem meets_of_ok (h : ∀ a, x = .ok a → P a) : Meets True P x := by
  cases x with
  | error e => trivial
  | ok a => exact h a rfl

def Refines (x y : Except ε α) : Prop := ∀ a, x = .ok a → y = .ok a

theorem Refines.refl (x : Except ε α) : Refines x x := fun _ run => run

theorem Refines.bind {y : Except ε α} {f g : α → Except ε β} (h : Refines x y)
    (next : ∀ a, Refines (f a) (g a)) : Refines (x >>= f) (y >>= g) := by
  intro b run
  obtain ⟨a, first, later⟩ := bind_eq_ok.mp run
  exact bind_eq_ok.mpr ⟨a, h a first, next a b later⟩

theorem Refines.map {y : Except ε α} (h : Refines x y) (f : α → β) :
    Refines (x.map f) (y.map f) := by
  intro b run
  obtain ⟨a, first, same⟩ := map_eq_ok.mp run
  exact map_eq_ok.mpr ⟨a, h a first, same⟩

theorem Refines.mapM {f g : α → Except ε β} (h : ∀ a, Refines (f a) (g a)) (as : List α) :
    Refines (as.mapM f) (as.mapM g) := by
  intro bs run
  exact mapM_of_forall₂ ((mapM_forall₂ run).imp h)

end TypedClients.Outcome
