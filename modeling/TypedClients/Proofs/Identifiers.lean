import TypedClients.Name

namespace TypedClients.Text

theorem ascii_forall {P : Char → Prop} (h : ∀ n < 128, P (Char.ofNat n)) {c : Char}
    (ascii : isAscii c = true) : P c := by
  have small : c.toNat < 128 := of_decide_eq_true ascii
  have at_code := h c.toNat small
  rwa [Char.ofNat_toNat] at at_code

theorem runs_chars {p : Char → Bool} {run cs : List Char} (clean : ∀ c ∈ run, p c = true) :
    ∀ r ∈ runs p run cs, r ≠ [] ∧ ∀ c ∈ r, p c = true := by
  induction cs generalizing run with
  | nil =>
    intro r mem
    rw [runs] at mem
    split at mem
    · cases mem
    · rename_i some_char
      have same := List.mem_singleton.mp mem
      subst same
      refine ⟨?_, fun c inside => clean c (List.mem_reverse.mp inside)⟩
      simpa using some_char
  | cons d rest ih =>
    rw [runs]
    split
    · rename_i kept
      apply ih
      intro c mem
      rcases List.mem_cons.mp mem with rfl | mem
      · exact kept
      · exact clean c mem
    · split
      · exact ih fun _ none => by cases none
      · rename_i some_char
        intro r mem
        rcases List.mem_cons.mp mem with rfl | later
        · refine ⟨?_, fun c inside => clean c (List.mem_reverse.mp inside)⟩
          simpa using some_char
        · exact ih (fun _ none => by cases none) r later

theorem splitCase_chars {mode : CaseMode} {word cs : List Char}
    (open_word : mode = .capital → word ≠ []) :
    ∀ w ∈ splitCase mode word cs, w ≠ [] ∧ ∀ c ∈ w, c ∈ word ∨ c ∈ cs := by
  fun_induction splitCase mode word cs with
  | case1 =>
    intro w none
    cases none
  | case2 mode word c =>
    intro w mem
    have same := List.mem_singleton.mp mem
    subst same
    refine ⟨by simp, fun d inside => ?_⟩
    rcases List.mem_cons.mp (List.mem_reverse.mp inside) with rfl | inside
    · exact .inr List.mem_cons_self
    · exact .inl inside
  | case3 mode word c next rest _ ih =>
    intro w mem
    rcases List.mem_cons.mp mem with rfl | later
    · refine ⟨by simp, fun d inside => ?_⟩
      rcases List.mem_cons.mp (List.mem_reverse.mp inside) with rfl | inside
      · exact .inr List.mem_cons_self
      · exact .inl inside
    · obtain ⟨nonempty, inside⟩ := ih (fun boundary => by cases boundary) w later
      refine ⟨nonempty, fun d mem => ?_⟩
      exact .inr (List.mem_cons_of_mem _ ((inside d mem).resolve_left List.not_mem_nil))
  | case4 mode word c next rest _ capital ih =>
    intro w mem
    rcases List.mem_cons.mp mem with rfl | later
    · have nonempty := open_word capital.1
      refine ⟨by simpa using nonempty, fun d inside => .inl (List.mem_reverse.mp inside)⟩
    · obtain ⟨nonempty, inside⟩ := ih (fun boundary => by cases boundary) w later
      refine ⟨nonempty, fun d mem => .inr ?_⟩
      rcases inside d mem with first | later
      · exact List.mem_singleton.mp first ▸ List.mem_cons_self
      · exact List.mem_cons_of_mem _ later
  | case5 mode word c next rest _ _ ih =>
    intro w mem
    obtain ⟨nonempty, inside⟩ := ih (fun _ => List.cons_ne_nil _ _) w mem
    refine ⟨nonempty, fun d mem => ?_⟩
    rcases inside d mem with before | later
    · rcases List.mem_cons.mp before with rfl | before
      · exact .inr List.mem_cons_self
      · exact .inl before
    · exact .inr (List.mem_cons_of_mem _ later)

theorem words_chars {s w : List Char} (h : w ∈ words s) :
    w ≠ [] ∧ ∀ c ∈ w, isAlphanumeric c = true := by
  obtain ⟨run, listed, mem⟩ := List.mem_flatMap.mp h
  have run_chars := (runs_chars (fun _ none => by cases none) run listed).2
  obtain ⟨nonempty, inside⟩ := splitCase_chars (fun boundary => by cases boundary) w mem
  refine ⟨nonempty, fun c mem => ?_⟩
  exact run_chars c ((inside c mem).resolve_left List.not_mem_nil)

def IsMark (c : Char) : Prop := c = '/' ∨ c = '.'

theorem IsMark.not_alphanumeric {c : Char} (h : IsMark c) : isAlphanumeric c = false := by
  rcases h with rfl | rfl <;> decide

theorem IsMark.code {c : Char} (h : IsMark c) : c.toNat = 46 ∨ c.toNat = 47 := by
  rcases h with rfl | rfl
  · exact .inr rfl
  · exact .inl rfl

theorem ofNat_code (n : Nat) : (Char.ofNat n).toNat = n ∨ (Char.ofNat n).toNat = 0 := by
  by_cases valid : n.isValidChar
  · left
    rw [Char.ofNat, dif_pos valid]
    rfl
  · right
    rw [Char.ofNat, dif_neg valid]
    rfl

theorem not_isMark_ofNat {n : Nat} (h : 47 < n) : ¬ IsMark (Char.ofNat n) := by
  intro mark
  have code := mark.code
  rcases ofNat_code n with same | zero
  · omega
  · omega

def KeepsAbove (table : List (Nat × Nat × Nat × Int)) : Prop :=
  ∀ x ∈ table, 47 < (x.1 : Int) + x.2.2.2

instance (table : List (Nat × Nat × Nat × Int)) : Decidable (KeepsAbove table) :=
  inferInstanceAs (Decidable (∀ x ∈ table, 47 < (x.1 : Int) + x.2.2.2))

theorem shift_not_isMark {table : List (Nat × Nat × Nat × Int)} (above : KeepsAbove table) {c : Char}
    (h : ¬ IsMark c) : ¬ IsMark (shift table c) := by
  unfold shift
  split
  · rename_i first last step d found
    have entry := above _ (List.mem_of_find?_eq_some found)
    have bound := List.find?_some found
    simp only [Bool.and_eq_true, decide_eq_true_eq] at bound entry
    apply not_isMark_ofNat
    omega
  · exact h

def MarkFree (cs : List Char) : Prop := ∀ c ∈ cs, ¬ IsMark c

theorem MarkFree.append {left right : List Char} (first : MarkFree left) (second : MarkFree right) :
    MarkFree (left ++ right) := by
  intro c mem
  rcases List.mem_append.mp mem with mem | mem
  · exact first c mem
  · exact second c mem

theorem MarkFree.flatMap {α : Type} {f : α → List Char} {as : List α}
    (h : ∀ a ∈ as, MarkFree (f a)) : MarkFree (as.flatMap f) := by
  intro c mem
  obtain ⟨a, listed, inside⟩ := List.mem_flatMap.mp mem
  exact h a listed c inside

theorem markFree_singleton {c : Char} (h : ¬ IsMark c) : MarkFree [c] := by
  intro d mem
  have same := List.mem_singleton.mp mem
  rwa [same]

theorem not_isMark_of_alphanumeric {c : Char} (h : isAlphanumeric c = true) : ¬ IsMark c := by
  intro mark
  rw [mark.not_alphanumeric] at h
  cases h

instance : DecidablePred IsMark := fun c => inferInstanceAs (Decidable (c = '/' ∨ c = '.'))

theorem smallForm_markFree {c : Char} (h : ¬ IsMark c) : MarkFree (smallForm c) := by
  unfold smallForm
  split
  · rename_i ascii
    have lowered : ¬ IsMark c → ¬ IsMark c.toLower :=
      ascii_forall (P := fun c => ¬ IsMark c → ¬ IsMark c.toLower) (by decide +kernel) ascii
    exact markFree_singleton (lowered h)
  · split
    · exact MarkFree.append (markFree_singleton (by decide))
        (markFree_singleton (not_isMark_ofNat (by decide)))
    · have above : KeepsAbove lowerShifts := by decide +kernel
      exact markFree_singleton (shift_not_isMark above h)

theorem capitalForm_markFree {c : Char} (h : isAlphanumeric c = true) :
    MarkFree (capitalForm c) := by
  unfold capitalForm
  split
  · rename_i ascii
    have raised : isAlphanumeric c = true → ¬ IsMark c.toUpper :=
      ascii_forall (P := fun c => isAlphanumeric c = true → ¬ IsMark c.toUpper) (by decide +kernel)
        ascii
    exact markFree_singleton (raised h)
  · split
    · rename_i codes found
      have above : ∀ entry ∈ upperExpansions, ∀ n ∈ entry.2, 47 < n := by decide +kernel
      obtain ⟨before, after, whole, _⟩ := List.lookup_eq_some_iff.mp found
      have listed : (c.toNat, codes) ∈ upperExpansions := by
        rw [whole]
        exact List.mem_append_right _ List.mem_cons_self
      intro d mem
      obtain ⟨n, code, rfl⟩ := List.mem_map.mp mem
      exact not_isMark_ofNat (above _ listed n code)
    · have above : KeepsAbove upperShifts := by decide +kernel
      exact markFree_singleton (shift_not_isMark above (not_isMark_of_alphanumeric h))

theorem smallWord_markFree {w : List Char} (h : ∀ c ∈ w, isAlphanumeric c = true) :
    MarkFree (smallWord w) := by
  fun_induction smallWord w with
  | case1 =>
    intro c none
    cases none
  | case2 c sigma => exact markFree_singleton (by decide)
  | case3 c _ => exact smallForm_markFree (not_isMark_of_alphanumeric (h c List.mem_cons_self))
  | case4 c rest _ ih =>
    have letter := not_isMark_of_alphanumeric (h c List.mem_cons_self)
    have first := smallForm_markFree letter
    exact first.append (ih fun d mem => h d (List.mem_cons_of_mem _ mem))

theorem capitalWord_markFree {w : List Char} (h : ∀ c ∈ w, isAlphanumeric c = true) :
    MarkFree (capitalWord w) := by
  cases w with
  | nil =>
    intro c none
    cases none
  | cons c rest =>
    have first := capitalForm_markFree (h c List.mem_cons_self)
    exact first.append (smallWord_markFree fun d mem => h d (List.mem_cons_of_mem _ mem))

theorem smallForm_ne_nil (c : Char) : smallForm c ≠ [] := by
  unfold smallForm
  split
  · exact List.cons_ne_nil _ _
  · split <;> exact List.cons_ne_nil _ _

theorem smallWord_ne_nil {w : List Char} (h : w ≠ []) : smallWord w ≠ [] := by
  fun_cases smallWord w with
  | case1 => exact absurd rfl h
  | case2 c sigma => exact List.cons_ne_nil _ _
  | case3 c _ => exact smallForm_ne_nil c
  | case4 c rest _ => exact List.append_ne_nil_of_left_ne_nil (smallForm_ne_nil c) _

theorem camel_markFree (s : List Char) : MarkFree (camel s) := by
  unfold camel
  split
  · intro c none
    cases none
  · rename_i first rest split_up
    have word : ∀ w ∈ first :: rest, ∀ c ∈ w, isAlphanumeric c = true := by
      intro w mem
      rw [← split_up] at mem
      exact (words_chars mem).2
    have head := smallWord_markFree (word first List.mem_cons_self)
    exact head.append (MarkFree.flatMap fun w mem =>
      capitalWord_markFree (word w (List.mem_cons_of_mem _ mem)))

theorem camel_ne_nil {s : List Char} (h : words s ≠ []) : camel s ≠ [] := by
  unfold camel
  split
  · contradiction
  · rename_i first rest split_up
    have mem : first ∈ words s := by
      rw [split_up]
      exact List.mem_cons_self
    exact List.append_ne_nil_of_left_ne_nil (smallWord_ne_nil (words_chars mem).1) _

theorem toLower_of_not_ascii {c : Char} (h : isAscii c = false) : c.toLower = c := by
  have high : ¬ c.toNat < 128 := of_decide_eq_false h
  unfold Char.toLower
  rw [dif_neg]
  intro given
  obtain ⟨_, below⟩ := given
  have code : c.toNat ≤ 90 := below
  omega

theorem toLower_congr {β : Type} {f : Char → β}
    (h : ∀ n < 128, f (Char.ofNat n).toLower = f (Char.ofNat n)) (c : Char) :
    f c.toLower = f c := by
  cases ascii : isAscii c with
  | true => exact ascii_forall (P := fun c => f c.toLower = f c) h ascii
  | false => rw [toLower_of_not_ascii ascii]

theorem isCased_toLower (c : Char) : isCased c.toLower = isCased c :=
  toLower_congr (by decide +kernel) c

theorem isCaseIgnorable_toLower (c : Char) : isCaseIgnorable c.toLower = isCaseIgnorable c :=
  toLower_congr (by decide +kernel) c

theorem smallForm_toLower (c : Char) : smallForm c.toLower = smallForm c :=
  toLower_congr (by decide +kernel) c

theorem isSigma_toLower (c : Char) : (c.toLower == 'Σ') = (c == 'Σ') :=
  toLower_congr (f := fun c => c == 'Σ') (by decide +kernel) c

theorem casedAhead_toLower (cs : List Char) :
    ((cs.map Char.toLower).dropWhile isCaseIgnorable).head?.any isCased =
      (cs.dropWhile isCaseIgnorable).head?.any isCased := by
  induction cs with
  | nil => rfl
  | cons c rest ih =>
    rw [List.map_cons, List.dropWhile_cons, List.dropWhile_cons, isCaseIgnorable_toLower]
    split
    · exact ih
    · simp [isCased_toLower]

theorem lowerFrom_toLower (before cs : List Char) :
    lowerFrom (before.map Char.toLower) (cs.map Char.toLower) = lowerFrom before cs := by
  induction cs generalizing before with
  | nil => rfl
  | cons c rest ih =>
    have later := ih (c :: before)
    have sigma : sigmaEndsWord (before.map Char.toLower) (rest.map Char.toLower) =
        sigmaEndsWord before rest := by
      unfold sigmaEndsWord
      rw [casedAhead_toLower, casedAhead_toLower]
    rw [List.map_cons] at later ⊢
    rw [lowerFrom, lowerFrom, later, sigma, isSigma_toLower, smallForm_toLower]

theorem lower_asciiLower (s : String) : lower (asciiLower s) = lower s := by
  unfold lower asciiLower
  rw [String.toList_ofList]
  congr 1
  exact lowerFrom_toLower [] s.toList

theorem lower_eq_of_equalIgnoringCase {a b : String} (h : equalIgnoringCase a b = true) :
    lower a = lower b := by
  have same : asciiLower a = asciiLower b := by simpa [equalIgnoringCase] using h
  rw [← lower_asciiLower a, same, lower_asciiLower]

theorem lower_head {c : Char} {s : String} {rest : List Char} (whole : s.toList = c :: rest)
    (small : smallForm c = [c]) (letter : c ≠ 'Σ') : (lower s).toList.head? = some c := by
  unfold lower
  rw [String.toList_ofList, whole, lowerFrom, if_neg (by simpa using letter), small]
  rfl

end TypedClients.Text

namespace TypedClients

open Text

theorem Name.guardDigit_markFree {cs : List Char} (h : MarkFree cs) : MarkFree (guardDigit cs) := by
  unfold guardDigit
  split
  · exact MarkFree.append (markFree_singleton (by decide)) h
  · exact h

theorem Name.guardDigit_ne_nil {cs : List Char} (h : cs ≠ []) : guardDigit cs ≠ [] := by
  unfold guardDigit
  split
  · exact List.cons_ne_nil _ _
  · exact h

theorem Name.camel_markFree (source : String) : MarkFree (ofText source).camel.toList := by
  unfold ofText
  split
  · have letters : MarkFree "unnamed".toList := by simp [MarkFree, IsMark]
    exact letters
  · rw [String.toList_ofList]
    exact guardDigit_markFree (Text.camel_markFree _)

theorem Name.camel_ne_empty (source : String) : (ofText source).camel ≠ "" := by
  unfold ofText
  split
  · have letters : "unnamed" ≠ "" := by decide
    exact letters
  · rename_i some_word
    have words_some : Text.words source.toList ≠ [] := by simpa using some_word
    have letters := guardDigit_ne_nil (Text.camel_ne_nil words_some)
    intro empty
    exact letters (by simpa using congrArg String.toList empty)

end TypedClients
