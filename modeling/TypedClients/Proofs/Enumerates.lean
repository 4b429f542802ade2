import Mathlib.Data.List.Forall2
import Mathlib.Data.List.Nodup

namespace TypedClients

theorem forall₂_zipIdx {α β : Type} {R : α → Nat → β → Prop} {as : List α} {bs : List β}
    (h : List.Forall₂ (fun a b => ∀ i, R a i b) as bs) (n : Nat) :
    List.Forall₂ (fun a b => R a.1 a.2 b) (as.zipIdx n) bs := by
  induction h generalizing n with
  | nil => exact .nil
  | cons first _ ih =>
    rw [List.zipIdx_cons]
    exact .cons (first n) (ih (n + 1))

/-- The names are those that things have by `R`, each of the things once. -/
def Enumerates {ι : Type} (R : ι → String → Prop) (names : List String) : Prop :=
  ∃ things : List ι, things.Nodup ∧ (∀ i, i ∈ things ↔ ∃ n, R i n) ∧ List.Forall₂ R things names

namespace Enumerates

variable {ι κ : Type} {R S : ι → String → Prop} {ns ms : List String}

theorem congr (h : Enumerates R ns) (same : ∀ i n, R i n ↔ S i n) : Enumerates S ns := by
  obtain rfl : R = S := by
    funext i n
    exact propext (same i n)
  exact h

theorem nothing (none : ∀ i n, ¬ R i n) : Enumerates R [] :=
  ⟨[], .nil, fun i => by simp [none], .nil⟩

theorem append (first : Enumerates R ns) (second : Enumerates S ms)
    (apart : ∀ i n m, R i n → ¬ S i m) : Enumerates (fun i n => R i n ∨ S i n) (ns ++ ms) := by
  obtain ⟨things, distinct, mem, names⟩ := first
  obtain ⟨others, distinct', mem', names'⟩ := second
  refine ⟨things ++ others, ?_, fun i => ?_, ?_⟩
  · refine List.nodup_append'.mpr ⟨distinct, distinct', fun i here there => ?_⟩
    obtain ⟨n, own⟩ := (mem i).mp here
    obtain ⟨m, other⟩ := (mem' i).mp there
    exact apart i n m own other
  · rw [List.mem_append, mem, mem', exists_or]
  · exact List.rel_append (names.imp fun _ _ => .inl) (names'.imp fun _ _ => .inr)

theorem map {f : ι → κ} (injective : Function.Injective f) (h : Enumerates R ns) :
    Enumerates (fun k n => ∃ i, k = f i ∧ R i n) ns := by
  obtain ⟨things, distinct, mem, names⟩ := h
  refine ⟨things.map f, distinct.map injective, fun k => ?_, ?_⟩
  · rw [List.mem_map]
    constructor
    · rintro ⟨i, listed, rfl⟩
      obtain ⟨n, own⟩ := (mem i).mp listed
      exact ⟨n, i, rfl, own⟩
    · rintro ⟨n, i, rfl, own⟩
      exact ⟨i, (mem i).mpr ⟨n, own⟩, rfl⟩
  · rw [List.forall₂_map_left_iff]
    exact names.imp fun i n own => ⟨i, rfl, own⟩

theorem ofList {things : List ι} (distinct : things.Nodup) (name : ι → String) :
    Enumerates (fun i n => i ∈ things ∧ n = name i) (things.map name) := by
  refine ⟨things, distinct, fun i => by simp, ?_⟩
  rw [List.forall₂_map_right_iff]
  exact List.forall₂_same.mpr fun i listed => ⟨listed, rfl⟩

theorem many {α : Type} (place : Nat → α → ι → κ) (injective : ∀ i a, (place i a).Injective)
    (apart : ∀ i j a b x y, place i a x = place j b y → i = j) {R : α → Nat → ι → String → Prop}
    {as : List α} {n : Nat} {nss : List (List String)}
    (h : List.Forall₂ (fun a ns => Enumerates (R a.1 a.2) ns) (as.zipIdx n) nss) :
    Enumerates (fun k m => ∃ i a x, as[i]? = some a ∧ k = place (n + i) a x ∧ R a (n + i) x m)
      nss.flatten := by
  induction as generalizing n nss with
  | nil =>
    cases h
    exact .nothing (by simp)
  | cons a rest ih =>
    rw [List.zipIdx_cons, List.forall₂_cons_left_iff] at h
    obtain ⟨ns, others, first, later, rfl⟩ := h
    rw [List.flatten_cons]
    -- The later members are numbered from `n + 1` on.
    refine ((first.map (injective n a)).append (ih later) ?_).congr ?_
    · rintro _ _ _ ⟨x, rfl, _⟩ ⟨i, b, y, _, same, _⟩
      have position := apart _ _ _ _ _ _ same
      omega
    · intro k m
      constructor
      · rintro (⟨x, rfl, own⟩ | ⟨i, b, x, listed, rfl, own⟩)
        · exact ⟨0, a, x, rfl, rfl, own⟩
        · rw [Nat.add_right_comm, Nat.add_assoc] at own ⊢
          exact ⟨i + 1, b, x, listed, rfl, own⟩
      · rintro ⟨i, b, x, listed, rfl, own⟩
        cases i with
        | zero =>
          cases Option.some.inj listed
          exact .inl ⟨x, rfl, own⟩
        | succ i =>
          rw [← Nat.add_assoc, Nat.add_right_comm] at own ⊢
          exact .inr ⟨i, b, x, listed, rfl, own⟩

theorem nodup_iff (h : Enumerates R ns) (functional : ∀ i n m, R i n → R i m → n = m) :
    ns.Nodup ↔ ∀ i j n, R i n → R j n → i = j := by
  obtain ⟨things, distinct, mem, names⟩ := h
  obtain ⟨name, named⟩ : ∃ name : ι → String, ∀ i n, R i n → n = name i := by
    have each : ∀ i, ∃ m, ∀ n, R i n → n = m := by
      intro i
      by_cases own : ∃ m, R i m
      · obtain ⟨m, own⟩ := own
        exact ⟨m, fun n other => functional i n m other own⟩
      · exact ⟨"", fun n other => absurd ⟨n, other⟩ own⟩
    choose name named using each
    exact ⟨name, named⟩
  have spelled : ns = things.map name := by
    rw [← List.forall₂_eq_eq_eq, List.forall₂_map_right_iff]
    exact names.flip.imp fun n i own => named i n own
  rw [spelled, List.nodup_map_iff_inj_on distinct]
  constructor
  · intro apart i j n own other
    refine apart i ((mem i).mpr ⟨n, own⟩) j ((mem j).mpr ⟨n, other⟩) ?_
    rw [← named i n own, ← named j n other]
  · intro apart i listed j listed' same
    obtain ⟨n, own⟩ := (mem i).mp listed
    obtain ⟨m, other⟩ := (mem j).mp listed'
    have equal : n = m := by rw [named i n own, named j m other, same]
    exact apart i j n own (equal ▸ other)

end Enumerates

end TypedClients
