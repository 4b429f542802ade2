import Mathlib.Tactic.Tauto
import TypedClients.Proofs.Identifiers

namespace TypedClients.Text

def casedAhead (cs : List Char) : Bool := (cs.dropWhile isCaseIgnorable).head?.any isCased

theorem sigmaEndsWord_eq (before after : List Char) :
    sigmaEndsWord before after = (casedAhead before && !casedAhead after) := rfl

structure Separates (c : Char) : Prop where
  uncased : isCased c = false
  visible : isCaseIgnorable c = false
  other : c ≠ 'Σ'
  small : smallForm c = [c]

theorem slash_separates : Separates '/' := ⟨by decide, by decide, by decide, by decide⟩

theorem Separates.casedAhead {c : Char} (h : Separates c) (near far : List Char) :
    Text.casedAhead (near ++ c :: far) = Text.casedAhead near := by
  induction near with
  | nil => simp [Text.casedAhead, h.uncased, h.visible]
  | cons d rest ih =>
    unfold Text.casedAhead at ih ⊢
    rw [List.cons_append, List.dropWhile_cons, List.dropWhile_cons]
    split
    · exact ih
    · rfl

theorem Separates.lowerFrom_behind {c : Char} (h : Separates c) (near far cs : List Char) :
    lowerFrom (near ++ c :: far) cs = lowerFrom near cs := by
  induction cs generalizing near with
  | nil => rfl
  | cons d rest ih =>
    have later := ih (d :: near)
    rw [List.cons_append] at later
    rw [lowerFrom, lowerFrom, later, sigmaEndsWord_eq, sigmaEndsWord_eq, h.casedAhead]

theorem Separates.lowerFrom_append {c : Char} (h : Separates c) (before left right : List Char) :
    lowerFrom before (left ++ c :: right) = lowerFrom before left ++ c :: lowerFrom [] right := by
  induction left generalizing before with
  | nil =>
    have rest : lowerFrom (c :: before) right = lowerFrom [] right :=
      h.lowerFrom_behind [] before right
    have plain : (c == 'Σ') = false := by simp [h.other]
    simp [lowerFrom, plain, h.small, rest]
  | cons d left ih =>
    rw [List.cons_append, lowerFrom, lowerFrom, ih, sigmaEndsWord_eq, sigmaEndsWord_eq,
      h.casedAhead, List.append_assoc]

theorem lower_slash (left right : String) :
    lower (left ++ "/" ++ right) = lower left ++ "/" ++ lower right := by
  have parts := slash_separates.lowerFrom_append [] left.toList right.toList
  have whole : (left ++ "/" ++ right).toList = left.toList ++ '/' :: right.toList := by simp
  apply String.toList_injective
  simp only [lower, whole, parts, String.toList_append, String.toList_ofList]
  simp

theorem lowerFrom_of_no_sigma {cs : List Char} (h : 'Σ' ∉ cs) (before : List Char) :
    lowerFrom before cs = cs.flatMap smallForm := by
  induction cs generalizing before with
  | nil => rfl
  | cons c rest ih =>
    have first : (c == 'Σ') = false := by
      rw [beq_eq_false_iff_ne]
      rintro rfl
      exact h List.mem_cons_self
    have later : 'Σ' ∉ rest := fun mem => h (List.mem_cons_of_mem _ mem)
    rw [lowerFrom, first, if_neg (by simp), ih later, List.flatMap_cons]

theorem lowerFrom_append_plain {tail : List Char} (plain : 'Σ' ∉ tail) (before cs : List Char) :
    ∃ small, lowerFrom before (cs ++ tail) = small ++ tail.flatMap smallForm := by
  induction cs generalizing before with
  | nil => exact ⟨[], lowerFrom_of_no_sigma plain before⟩
  | cons c rest ih =>
    obtain ⟨small, later⟩ := ih (c :: before)
    rw [List.cons_append, lowerFrom, later, ← List.append_assoc]
    exact ⟨_, rfl⟩

def HasSigma (s : String) : Prop := 'σ' ∈ s.toList ∨ 'ς' ∈ s.toList

instance (s : String) : Decidable (HasSigma s) :=
  inferInstanceAs (Decidable ('σ' ∈ s.toList ∨ 'ς' ∈ s.toList))

theorem lower_hasSigma {s : String} (h : 'Σ' ∈ s.toList) : HasSigma (lower s) := by
  unfold HasSigma lower
  rw [String.toList_ofList]
  generalize [] = before
  generalize s.toList = cs at h
  induction cs generalizing before with
  | nil => cases h
  | cons c rest ih =>
    rw [lowerFrom, List.mem_append, List.mem_append]
    rcases List.mem_cons.mp h with rfl | later
    · cases sigmaEndsWord before rest <;> simp
    · rcases ih (c :: before) later with there | there
      · exact .inl (.inr there)
      · exact .inr (.inr there)

theorem lower_append {s t : String} (left : 'Σ' ∉ s.toList) (right : 'Σ' ∉ t.toList) :
    lower (s ++ t) = lower s ++ lower t := by
  have both : 'Σ' ∉ s.toList ++ t.toList := by simp [left, right]
  apply String.toList_injective
  simp only [lower, String.toList_append, String.toList_ofList, lowerFrom_of_no_sigma left,
    lowerFrom_of_no_sigma right, lowerFrom_of_no_sigma both, List.flatMap_append]

theorem lower_append_eq_iff {s tail small : String} (plain : 'Σ' ∉ tail.toList)
    (same : lower tail = tail) (tail_none : ¬ HasSigma tail) (small_none : ¬ HasSigma small) :
    lower (s ++ tail) = small ++ tail ↔ lower s = small := by
  have whole_none : ¬ HasSigma (small ++ tail) := by
    simp only [HasSigma, String.toList_append, List.mem_append] at tail_none small_none ⊢
    tauto
  constructor
  · intro eq
    have free : 'Σ' ∉ s.toList := by
      intro mem
      apply whole_none
      rw [← eq]
      exact lower_hasSigma (by simp [mem])
    rw [lower_append free plain, same] at eq
    exact (String.append_left_inj _).mp eq
  · intro eq
    have free : 'Σ' ∉ s.toList := by
      intro mem
      apply small_none
      rw [← eq]
      exact lower_hasSigma mem
    rw [lower_append free plain, same, eq]

theorem lower_append_tail {tail : String} (plain : 'Σ' ∉ tail.toList) (same : lower tail = tail)
    (s : String) : ∃ small, lower (s ++ tail) = small ++ tail := by
  obtain ⟨small, parts⟩ := lowerFrom_append_plain plain [] s.toList
  have own : tail.toList.flatMap smallForm = tail.toList := by
    rw [← lowerFrom_of_no_sigma plain []]
    have listed := congrArg String.toList same
    rwa [lower, String.toList_ofList] at listed
  refine ⟨String.ofList small, String.toList_injective ?_⟩
  rw [lower, String.toList_append, parts, own]
  simp

theorem smallForm_flat {c : Char} (h : c ≠ '/') : '/' ∉ smallForm c := by
  by_cases dot : c = '.'
  · rw [dot]
    decide
  · exact fun slash => smallForm_markFree (by simp [IsMark, h, dot]) '/' slash (.inl rfl)

theorem lower_flat {s : String} (h : '/' ∉ s.toList) : '/' ∉ (lower s).toList := by
  unfold lower
  rw [String.toList_ofList]
  generalize [] = before
  generalize s.toList = cs at h
  induction cs generalizing before with
  | nil => exact h
  | cons c rest ih =>
    rw [List.mem_cons, not_or] at h
    obtain ⟨other, later⟩ := h
    rw [lowerFrom, List.mem_append, not_or]
    refine ⟨?_, ih (c :: before) later⟩
    split
    · cases sigmaEndsWord before rest <;> simp
    · exact smallForm_flat (Ne.symm other)

end TypedClients.Text
