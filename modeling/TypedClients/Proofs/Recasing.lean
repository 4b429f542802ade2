import TypedClients.Proofs.Identifiers

namespace TypedClients.Text

def Leading (cs : List Char) : Prop := ∀ c ∈ cs.head?, isAlphanumeric c = true

def rangeHolds (low high : Nat) : Bool :=
  alphanumericRanges.any fun r => Nat.ble r.1 low && Nat.ble high r.2

theorem toNat_ofNat_of_plane {n : Nat} (h : n ≤ 0xD7FF ∨ 0xE000 ≤ n ∧ n ≤ 0x10FFFF) :
    (Char.ofNat n).toNat = n := by
  have valid : n.isValidChar := h.imp (by omega) (by omega)
  rw [Char.ofNat, dif_pos valid]
  rfl

theorem alphanumericRanges_codes : (alphanumericRanges.all fun r => Nat.ble 128 r.1 &&
    (Nat.ble r.2 0xD7FF || Nat.ble 0xE000 r.1 && Nat.ble r.2 0x10FFFF)) = true := by
  decide +kernel

theorem isAlphanumeric_of_rangeHolds {low high n : Nat} (h : rangeHolds low high = true)
    (above : low ≤ n) (below : n ≤ high) : isAlphanumeric (Char.ofNat n) = true := by
  obtain ⟨r, listed, holds⟩ := List.any_eq_true.mp h
  have codes := List.all_eq_true.mp alphanumericRanges_codes r listed
  simp only [Bool.and_eq_true, Bool.or_eq_true, Nat.ble_eq] at holds codes
  have code : (Char.ofNat n).toNat = n :=
    toNat_ofNat_of_plane (codes.2.imp (by omega) (by omega))
  have other : isAscii (Char.ofNat n) = false := by
    simp only [isAscii, code, decide_eq_false_iff_not]
    omega
  unfold isAlphanumeric
  rw [other, if_neg Bool.false_ne_true]
  refine List.any_eq_true.mpr ⟨r, listed, ?_⟩
  simp only [code, Bool.and_eq_true, decide_eq_true_eq]
  omega

def leadsToAlphanumeric (x : Nat × Nat × Nat × Int) : Bool :=
  rangeHolds (x.1 + x.2.2.2).toNat (x.2.1 + x.2.2.2).toNat ||
    (List.range' x.1 (x.2.1 - x.1 + 1)).all fun n =>
      (n - x.1) % x.2.2.1 != 0 || isAlphanumeric (Char.ofNat (n + x.2.2.2).toNat)

theorem shift_alphanumeric {table : List (Nat × Nat × Nat × Int)}
    (leads : table.all leadsToAlphanumeric = true) {c : Char} (h : isAlphanumeric c = true) :
    isAlphanumeric (shift table c) = true := by
  unfold shift
  split
  · rename_i first last step d found
    have entry := List.all_eq_true.mp leads _ (List.mem_of_find?_eq_some found)
    have bound := List.find?_some found
    simp only [Bool.and_eq_true, decide_eq_true_eq, beq_iff_eq] at bound
    rcases Bool.or_eq_true_iff.mp entry with whole | each
    · exact isAlphanumeric_of_rangeHolds whole (by dsimp only; omega) (by dsimp only; omega)
    · have member := List.all_eq_true.mp each c.toNat (List.mem_range'_1.mpr (by dsimp only; omega))
      simpa [bound.2] using member
  · exact h

theorem upperShifts_alphanumeric : upperShifts.all leadsToAlphanumeric = true := by decide +kernel

theorem lowerShifts_alphanumeric : lowerShifts.all leadsToAlphanumeric = true := by decide +kernel

theorem upperExpansions_heads : (upperExpansions.all fun entry => entry.2.head?.any fun n =>
    (rangeHolds n n || isAlphanumeric (Char.ofNat n)) && !Nat.beq n entry.1) = true := by
  decide +kernel

theorem mem_upperExpansions {n : Nat} {codes : List Nat}
    (found : upperExpansions.lookup n = some codes) : (n, codes) ∈ upperExpansions := by
  obtain ⟨before, after, whole, _⟩ := List.lookup_eq_some_iff.mp found
  rw [whole]
  exact List.mem_append_right _ List.mem_cons_self

theorem upperExpansion_head {c : Char} {codes : List Nat}
    (found : upperExpansions.lookup c.toNat = some codes) :
    ∃ d rest, codes.map Char.ofNat = d :: rest ∧ isAlphanumeric d = true ∧ d ≠ c := by
  have listed := mem_upperExpansions found
  have heads := List.all_eq_true.mp upperExpansions_heads _ listed
  obtain ⟨n, first, fits⟩ := (Option.any_eq_true _ _).mp heads
  obtain ⟨rest, rfl⟩ := List.head?_eq_some_iff.mp first
  simp only [Bool.and_eq_true, Bool.or_eq_true] at fits
  have letter : isAlphanumeric (Char.ofNat n) = true :=
    fits.1.elim (fun range => isAlphanumeric_of_rangeHolds range (Nat.le_refl n) (Nat.le_refl n)) id
  refine ⟨_, _, rfl, letter, fun same => ?_⟩
  have code : (Char.ofNat n).toNat = n := by
    rcases ofNat_code n with code | zero
    · exact code
    · rw [Char.toNat_inj.mp (zero.trans (show 0 = '\x00'.toNat from rfl))] at letter
      exact absurd letter (by decide)
  have other : n ≠ c.toNat := by
    rintro rfl
    simp [Nat.beq_refl] at fits
  exact other (by rw [← same, code])

theorem capitalForm_leading {c : Char} (h : isAlphanumeric c = true) :
    ∃ d rest, capitalForm c = d :: rest ∧ isAlphanumeric d = true := by
  unfold capitalForm
  split
  · rename_i ascii
    have raised : isAlphanumeric c = true → isAlphanumeric c.toUpper = true :=
      ascii_forall (P := fun c => isAlphanumeric c = true → isAlphanumeric c.toUpper = true)
        (by decide +kernel) ascii
    exact ⟨_, _, rfl, raised h⟩
  · split
    · rename_i codes found
      obtain ⟨d, rest, form, letter, _⟩ := upperExpansion_head found
      exact ⟨d, rest, form, letter⟩
    · exact ⟨_, _, rfl, shift_alphanumeric upperShifts_alphanumeric h⟩

theorem smallForm_leading {c : Char} (h : isAlphanumeric c = true) :
    ∃ d rest, smallForm c = d :: rest ∧ isAlphanumeric d = true := by
  unfold smallForm
  split
  · rename_i ascii
    have lowered : isAlphanumeric c = true → isAlphanumeric c.toLower = true :=
      ascii_forall (P := fun c => isAlphanumeric c = true → isAlphanumeric c.toLower = true)
        (by decide +kernel) ascii
    exact ⟨_, _, rfl, lowered h⟩
  · split
    · exact ⟨_, _, rfl, by decide⟩
    · exact ⟨_, _, rfl, shift_alphanumeric lowerShifts_alphanumeric h⟩

theorem capitalForm_of_head {c : Char} {rest : List Char} (h : capitalForm c = c :: rest) :
    rest = [] := by
  unfold capitalForm at h
  split at h
  · exact (List.cons.inj h).2.symm
  · split at h
    · rename_i codes found
      obtain ⟨d, more, form, _, other⟩ := upperExpansion_head found
      exact absurd (List.cons.inj (form.symm.trans h)).1 other
    · exact (List.cons.inj h).2.symm

theorem smallForm_of_head {c : Char} {rest : List Char} (h : smallForm c = c :: rest) :
    rest = [] := by
  unfold smallForm at h
  split at h
  · exact (List.cons.inj h).2.symm
  · split at h
    · rename_i dotted
      have same : c = 'İ' := by simpa using dotted
      rw [same] at h
      exact absurd (List.cons.inj h).1 (by decide)
    · exact (List.cons.inj h).2.symm

inductive Recased : List Char → List Char → Prop
  | nil : Recased [] []
  | drop {c : Char} {cs out : List Char} (separates : isAlphanumeric c = false)
      (leading : Leading out) (rest : Recased cs out) : Recased (c :: cs) out
  | capital {c : Char} {cs out : List Char} (letter : isAlphanumeric c = true)
      (rest : Recased cs out) : Recased (c :: cs) (capitalForm c ++ out)
  | small {cs out : List Char} (c : Char) (rest : Recased cs out) :
      Recased (c :: cs) (smallForm c ++ out)
  | sigma {cs out : List Char} (rest : Recased cs out) : Recased ('Σ' :: cs) ('ς' :: out)

theorem Leading.append {cs ds : List Char} (first : Leading cs) (second : Leading ds) :
    Leading (cs ++ ds) := by
  cases cs with
  | nil => exact second
  | cons c rest => exact first

theorem leading_nil : Leading [] := by simp [Leading]

theorem Leading.of_cons {c : Char} (h : isAlphanumeric c = true) (cs : List Char) :
    Leading (c :: cs) := fun _ same => Option.mem_some_iff.mp same ▸ h

theorem Recased.eq_of_prefix {cs out tail : List Char} (h : Recased cs out) (leading : Leading tail)
    (front : cs <+: out ++ tail) : out = cs := by
  induction h with
  | nil => rfl
  | @drop c _ out separates first _ _ =>
    obtain ⟨rest, whole⟩ := front
    have letter := first.append leading c (by rw [← whole]; exact rfl)
    rw [separates] at letter
    cases letter
  | capital letter _ ih =>
    obtain ⟨d, rest, form, _⟩ := capitalForm_leading letter
    rw [form, List.append_assoc, List.cons_append] at front
    obtain ⟨same, rest_front⟩ := List.cons_prefix_cons.mp front
    subst same
    cases capitalForm_of_head form
    rw [form, ih rest_front]
    rfl
  | small c _ ih =>
    obtain ⟨d, rest, form⟩ := List.exists_cons_of_ne_nil (smallForm_ne_nil c)
    rw [form, List.append_assoc, List.cons_append] at front
    obtain ⟨same, rest_front⟩ := List.cons_prefix_cons.mp front
    subst same
    cases smallForm_of_head form
    rw [form, ih rest_front]
    rfl
  | sigma _ ih =>
    rw [List.cons_append] at front
    exact absurd (List.cons_prefix_cons.mp front).1 (by decide)

inductive Spread : List Char → List (List Char) → Prop
  | nil : Spread [] []
  | skip {c : Char} {cs : List Char} {ws : List (List Char)} (separates : isAlphanumeric c = false)
      (rest : Spread cs ws) : Spread (c :: cs) ws
  | word {w cs : List Char} {ws : List (List Char)} (nonempty : w ≠ [])
      (letters : ∀ c ∈ w, isAlphanumeric c = true) (rest : Spread cs ws) :
      Spread (w ++ cs) (w :: ws)

theorem Spread.append_words {ws rest : List (List Char)} {cs : List Char}
    (fits : ∀ w ∈ ws, w ≠ [] ∧ ∀ c ∈ w, isAlphanumeric c = true) (h : Spread cs rest) :
    Spread (ws.flatten ++ cs) (ws ++ rest) := by
  induction ws with
  | nil => exact h
  | cons w more ih =>
    obtain ⟨nonempty, letters⟩ := fits w List.mem_cons_self
    rw [List.flatten_cons, List.append_assoc]
    exact .word nonempty letters (ih fun v mem => fits v (List.mem_cons_of_mem _ mem))

theorem splitCase_flatten {mode : CaseMode} {word cs : List Char} (some_left : cs ≠ []) :
    (splitCase mode word cs).flatten = word.reverse ++ cs := by
  fun_induction splitCase mode word cs with
  | case1 => exact absurd rfl some_left
  | case2 => simp
  | case3 mode word c next rest _ ih =>
    rw [List.flatten_cons, ih (List.cons_ne_nil _ _)]
    simp
  | case4 mode word c next rest _ _ ih =>
    rw [List.flatten_cons, ih (List.cons_ne_nil _ _)]
    simp
  | case5 mode word c next rest _ _ ih =>
    rw [ih (List.cons_ne_nil _ _)]
    simp

theorem Spread.append_run {run cs : List Char} {ws : List (List Char)} (nonempty : run ≠ [])
    (letters : ∀ c ∈ run, isAlphanumeric c = true) (rest : Spread cs ws) :
    Spread (run ++ cs) (splitCase .boundary [] run ++ ws) := by
  have fits : ∀ w ∈ splitCase .boundary [] run, w ≠ [] ∧ ∀ c ∈ w, isAlphanumeric c = true := by
    intro w mem
    obtain ⟨some_char, inside⟩ := splitCase_chars (fun capital => by cases capital) w mem
    refine ⟨some_char, fun c own => letters c ?_⟩
    rcases inside c own with none | from_run
    · cases none
    · exact from_run
  have cut := rest.append_words fits
  rwa [splitCase_flatten nonempty] at cut

theorem runs_spread {run cs : List Char} (letters : ∀ c ∈ run, isAlphanumeric c = true) :
    Spread (run.reverse ++ cs) ((runs isAlphanumeric run cs).flatMap (splitCase .boundary [])) := by
  have reversed : ∀ {run : List Char}, (∀ c ∈ run, isAlphanumeric c = true) →
      ∀ c ∈ run.reverse, isAlphanumeric c = true :=
    fun letters c mem => letters c (List.mem_reverse.mp mem)
  fun_induction runs isAlphanumeric run cs with
  | case1 run empty =>
    cases List.isEmpty_iff.mp empty
    exact .nil
  | case2 run some_char =>
    exact .append_run (by simpa using some_char) (reversed letters) .nil
  | case3 run c rest letter ih =>
    have longer := ih (List.forall_mem_cons.mpr ⟨letter, letters⟩)
    rwa [List.reverse_cons, List.append_assoc] at longer
  | case4 run c rest separates empty ih =>
    cases List.isEmpty_iff.mp empty
    exact .skip (by simpa using separates) (ih nofun)
  | case5 run c rest separates some_char ih =>
    rw [List.flatMap_cons]
    exact .append_run (by simpa using some_char) (reversed letters)
      (.skip (by simpa using separates) (ih nofun))

theorem words_spread (s : List Char) : Spread s (words s) := by
  have none : ∀ c ∈ [], isAlphanumeric c = true := nofun
  exact runs_spread none

theorem Spread.leading {cs : List Char} {ws : List (List Char)} (h : Spread cs ws) :
    Leading (ws.flatMap capitalWord) := by
  induction h with
  | nil => exact leading_nil
  | skip _ _ ih => exact ih
  | @word w _ _ nonempty letters _ _ =>
    cases w with
    | nil => exact absurd rfl nonempty
    | cons c rest =>
      obtain ⟨d, more, form, letter⟩ := capitalForm_leading (letters c List.mem_cons_self)
      rw [List.flatMap_cons, capitalWord, form]
      exact .of_cons letter _

theorem Recased.smallWord {cs out : List Char} (h : Recased cs out) (w : List Char) :
    Recased (w ++ cs) (Text.smallWord w ++ out) := by
  fun_induction Text.smallWord w with
  | case1 => exact h
  | case2 c sigma =>
    have same : c = 'Σ' := by simpa using sigma
    rw [same]
    exact .sigma h
  | case3 c _ => exact .small c h
  | case4 c rest _ ih =>
    rw [List.append_assoc]
    exact .small c ih

theorem Spread.recased {cs : List Char} {ws : List (List Char)} (h : Spread cs ws) :
    Recased cs (ws.flatMap capitalWord) := by
  induction h with
  | nil => exact .nil
  | skip separates rest ih => exact .drop separates rest.leading ih
  | @word w _ _ nonempty letters _ ih =>
    cases w with
    | nil => exact absurd rfl nonempty
    | cons c rest =>
      rw [List.flatMap_cons, capitalWord, List.append_assoc]
      exact .capital (letters c List.mem_cons_self) (ih.smallWord rest)

def inRun (x : Nat × Nat × Nat × Int) (n : Nat) : Bool :=
  Nat.ble x.1 n && Nat.ble n x.2.1 && Nat.beq ((n - x.1) % x.2.2.1) 0

theorem lowerShifts_of_expansion : (lowerShifts.all fun x => upperExpansions.all fun entry =>
    !inRun x entry.1 ||
      upperExpansions.lookup (entry.1 + x.2.2.2).toNat == some entry.2) = true := by
  decide +kernel

theorem lowerShifts_to_expansion : (lowerShifts.all fun x => upperExpansions.all fun entry =>
    !inRun x (entry.1 - x.2.2.2).toNat ||
      (upperExpansions.lookup (entry.1 - x.2.2.2).toNat).isSome ||
      Nat.beq (entry.1 - x.2.2.2).toNat 'ẞ'.toNat) = true := by
  decide +kernel

theorem shift_lowerShifts (c : Char) : shift lowerShifts c = c ∨ ∃ x ∈ lowerShifts,
    inRun x c.toNat = true ∧ shift lowerShifts c = Char.ofNat (c.toNat + x.2.2.2).toNat := by
  unfold shift
  split
  · rename_i first last step d found
    refine .inr ⟨_, List.mem_of_find?_eq_some found, ?_, rfl⟩
    have bound := List.find?_some found
    simpa [inRun, Nat.ble_eq] using bound
  · exact .inl rfl

theorem capitalForm_toLower (c : Char) : capitalForm c.toLower = capitalForm c :=
  toLower_congr (by decide +kernel) c

theorem upperExpansions_codes : (upperExpansions.all fun entry =>
    Nat.ble 128 entry.1 && (Nat.ble entry.1 0xD7FF ||
      Nat.ble 0xE000 entry.1 && Nat.ble entry.1 0x10FFFF)) = true := by
  decide +kernel

theorem capitalForm_of_expansion {c : Char} {codes : List Nat}
    (found : upperExpansions.lookup c.toNat = some codes) :
    capitalForm c = codes.map Char.ofNat := by
  have code := List.all_eq_true.mp upperExpansions_codes _ (mem_upperExpansions found)
  simp only [Bool.and_eq_true, Nat.ble_eq] at code
  have other : isAscii c = false := by
    simp only [isAscii, decide_eq_false_iff_not]
    omega
  unfold capitalForm
  simp [other, found]

theorem capitalForm_single {c : Char} (missing : upperExpansions.lookup c.toNat = none) :
    ∃ d, capitalForm c = [d] := by
  unfold capitalForm
  split
  · exact ⟨_, rfl⟩
  · rw [missing]
    exact ⟨_, rfl⟩

theorem capitalForm_shift {c : Char} {x : Nat × Nat × Nat × Int} (listed : x ∈ lowerShifts)
    (member : inRun x c.toNat = true)
    (moved : shift lowerShifts c = Char.ofNat (c.toNat + x.2.2.2).toNat) :
    capitalForm (shift lowerShifts c) = capitalForm c ∨
      (capitalForm (shift lowerShifts c)).head? ≠ (capitalForm c).head? := by
  cases own : upperExpansions.lookup c.toNat with
  | some codes =>
    left
    have entry := mem_upperExpansions own
    have kept := List.all_eq_true.mp (List.all_eq_true.mp lowerShifts_of_expansion x listed) _ entry
    simp only [member, Bool.not_true, Bool.false_or, beq_iff_eq] at kept
    have code := List.all_eq_true.mp upperExpansions_codes _ (mem_upperExpansions kept)
    simp only [Bool.and_eq_true, Bool.or_eq_true, Nat.ble_eq] at code
    have same := toNat_ofNat_of_plane code.2
    rw [capitalForm_of_expansion own, moved, capitalForm_of_expansion (same.symm ▸ kept)]
  | none =>
    obtain ⟨u, single⟩ := capitalForm_single own
    cases other : upperExpansions.lookup (shift lowerShifts c).toNat with
    | none =>
      obtain ⟨v, single_small⟩ := capitalForm_single other
      rw [single, single_small]
      by_cases same : v = u
      · exact .inl (congrArg (fun c => [c]) same)
      · exact .inr (by simpa using same)
    | some codes =>
      -- Only the capital sharp s becomes a character that expands without doing so itself.
      right
      have entry := mem_upperExpansions other
      have reached :=
        List.all_eq_true.mp (List.all_eq_true.mp lowerShifts_to_expansion x listed) _ entry
      have code := List.all_eq_true.mp upperExpansions_codes _ entry
      simp only [Bool.and_eq_true, Nat.ble_eq] at code
      have back : ((shift lowerShifts c).toNat - x.2.2.2).toNat = c.toNat := by
        rcases ofNat_code (c.toNat + x.2.2.2).toNat with same | zero
        · rw [moved, same] at code ⊢
          omega
        · rw [moved, zero] at code
          omega
      simp only [back, member, own, Bool.not_true, Option.isSome_none, Bool.false_or,
        Nat.beq_eq] at reached
      rw [Char.toNat_inj.mp reached]
      decide +kernel

theorem capitalForm_smallForm {c d : Char} {rest : List Char} (form : smallForm c = d :: rest) :
    (rest = [] ∧ capitalForm d = capitalForm c) ∨
      (capitalForm d).head? ≠ (capitalForm c).head? := by
  unfold smallForm at form
  split at form
  · obtain ⟨rfl, rfl⟩ := List.cons.inj form
    exact .inl ⟨rfl, capitalForm_toLower c⟩
  · rename_i other
    split at form
    · rename_i dotted
      obtain ⟨rfl, rfl⟩ := List.cons.inj form
      have same : c = 'İ' := by simpa using dotted
      rw [same]
      exact .inr (by decide)
    · obtain ⟨rfl, rfl⟩ := List.cons.inj form
      rcases shift_lowerShifts c with same | ⟨x, listed, member, moved⟩
      · exact .inl ⟨rfl, congrArg capitalForm same⟩
      · exact (capitalForm_shift listed member moved).imp (fun same => ⟨rfl, same⟩) id

theorem smallWord_first {c : Char} (letter : isAlphanumeric c = true) (rest : List Char) :
    ∃ d more, smallWord (c :: rest) = d :: (more ++ smallWord rest) ∧ isAlphanumeric d = true ∧
      ((more = [] ∧ capitalForm d = capitalForm c) ∨
        (capitalForm d).head? ≠ (capitalForm c).head?) := by
  obtain ⟨d, more, form, letter_small⟩ := smallForm_leading letter
  have related := capitalForm_smallForm form
  cases rest with
  | nil =>
    by_cases sigma : c = 'Σ'
    · rw [sigma]
      exact ⟨'ς', [], rfl, by decide, .inl ⟨rfl, by decide +kernel⟩⟩
    · have single : smallWord [c] = smallForm c := by simp [smallWord, sigma]
      rw [single, form]
      exact ⟨d, more, congrArg _ (List.append_nil more).symm, letter_small, related⟩
  | cons next rest =>
    rw [smallWord, form]
    · exact ⟨d, more, rfl, letter_small, related⟩
    · exact List.cons_ne_nil _ _

/-- The two spellings of a name differ in their first letter only. -/
theorem pascal_camel {s : List Char} (some_word : words s ≠ []) :
    ∃ c d more rest, pascal s = capitalForm c ++ rest ∧ camel s = d :: (more ++ rest) ∧
      isAlphanumeric c = true ∧ isAlphanumeric d = true ∧
      ((more = [] ∧ capitalForm d = capitalForm c) ∨
        (capitalForm d).head? ≠ (capitalForm c).head?) := by
  obtain ⟨first, later, split_up⟩ := List.exists_cons_of_ne_nil some_word
  obtain ⟨nonempty, letters⟩ := words_chars (split_up ▸ List.mem_cons_self : first ∈ words s)
  obtain ⟨c, tail, rfl⟩ := List.exists_cons_of_ne_nil nonempty
  have letter := letters c List.mem_cons_self
  obtain ⟨d, more, small, letter_small, related⟩ := smallWord_first letter tail
  refine ⟨c, d, more, smallWord tail ++ later.flatMap capitalWord, ?_, ?_, letter, letter_small,
    related⟩
  · rw [pascal, split_up, List.flatMap_cons, capitalWord, List.append_assoc]
  · rw [camel, split_up]
    dsimp only
    rw [small, List.cons_append, List.append_assoc]

theorem pascal_head {s : List Char} (some_word : words s ≠ []) :
    ∃ c rest, pascal s = c :: rest ∧ isAlphanumeric c = true := by
  obtain ⟨c, _, _, rest, capital, _, letter, _, _⟩ := pascal_camel some_word
  obtain ⟨d, more, form, letter_form⟩ := capitalForm_leading letter
  exact ⟨d, more ++ rest, by rw [capital, form, List.cons_append], letter_form⟩

theorem Spread.first {c : Char} {cs : List Char} {ws : List (List Char)} (h : Spread (c :: cs) ws)
    (letter : isAlphanumeric c = true) :
    ws ≠ [] ∧ ∃ out, ws.flatMap capitalWord = capitalForm c ++ out ∧ Recased cs out := by
  generalize whole : c :: cs = text at h
  cases h with
  | nil => cases whole
  | skip separates _ =>
    cases whole
    rw [separates] at letter
    cases letter
  | @word w _ _ nonempty letters rest =>
    obtain ⟨d, tail, rfl⟩ := List.exists_cons_of_ne_nil nonempty
    cases whole
    refine ⟨List.cons_ne_nil _ _, _, ?_, rest.recased.smallWord tail⟩
    rw [List.flatMap_cons, capitalWord, List.append_assoc]

theorem words_camel_ne_nil {s : List Char} (some_word : words s ≠ []) : words (camel s) ≠ [] := by
  obtain ⟨_, d, more, rest, _, small, _, letter, _⟩ := pascal_camel some_word
  have spread := words_spread (camel s)
  rw [small] at spread ⊢
  exact (spread.first letter).1

theorem pascal_leading (s : List Char) : Leading (pascal s) := (words_spread s).leading

theorem pascal_camel_of_prefix {s tail : List Char} (some_word : words s ≠ [])
    (leading : Leading tail) (front : pascal s <+: pascal (camel s) ++ tail) :
    pascal (camel s) = pascal s := by
  obtain ⟨c, d, more, rest, capital, small, letter, letter_small, related⟩ :=
    pascal_camel some_word
  have spread := words_spread (camel s)
  rw [small] at spread
  obtain ⟨_, out, again, recased⟩ := spread.first letter_small
  have again : pascal (camel s) = capitalForm d ++ out := by
    rw [pascal, small]
    exact again
  rw [again, capital] at front ⊢
  rcases related with ⟨rfl, same⟩ | other
  · rw [same, List.append_assoc] at front
    rw [same, recased.eq_of_prefix leading ((List.prefix_append_right_inj _).mp front)]
    rfl
  · obtain ⟨a, first, form, _⟩ := capitalForm_leading letter
    obtain ⟨b, second, form_small, _⟩ := capitalForm_leading letter_small
    rw [form, form_small] at front other
    simp only [List.cons_append] at front
    exact absurd (congrArg some (List.cons_prefix_cons.mp front).1.symm) other

theorem words_guardDigit (cs : List Char) : words (Name.guardDigit cs) = words cs := by
  unfold Name.guardDigit
  split
  · have separates : isAlphanumeric '_' = false := by decide
    simp [words, runs, separates]
  · rfl

theorem prefix_of_guardDigit {cs ds tail : List Char} (first : Leading cs) (second : Leading ds)
    (third : Leading tail) (front : Name.guardDigit cs <+: Name.guardDigit ds ++ tail) :
    cs <+: ds ++ tail := by
  have separates : isAlphanumeric '_' ≠ true := by decide
  unfold Name.guardDigit at front
  split at front <;> split at front
  · exact (List.cons_prefix_cons.mp front).2
  · obtain ⟨rest, whole⟩ := front
    exact absurd (second.append third '_' (by rw [← whole]; exact rfl)) separates
  · cases cs with
    | nil => exact List.nil_prefix
    | cons c rest =>
      cases (List.cons_prefix_cons.mp front).1
      exact absurd (first '_' rfl) separates
  · exact front

theorem guardDigit_inj {cs ds : List Char} (first : Leading cs) (second : Leading ds) :
    Name.guardDigit cs = Name.guardDigit ds ↔ cs = ds := by
  constructor
  · intro same
    have front := prefix_of_guardDigit first second leading_nil (by simp [same])
    have back := prefix_of_guardDigit second first leading_nil (by simp [same])
    rw [List.append_nil] at front back
    exact front.eq_of_length_le back.length_le
  · intro same
    rw [same]

end TypedClients.Text

namespace TypedClients.Name

open Text

def reread (name : Name) : String := (ofText name.camel).pascal

theorem ofText_of_words {source : String} (some_word : words source.toList ≠ []) :
    ofText source = ⟨source, String.ofList (guardDigit (Text.pascal source.toList)),
      String.ofList (guardDigit (Text.camel source.toList))⟩ := by
  simp [ofText, some_word]

theorem ofText_of_no_words {source : String} (none : words source.toList = []) :
    ofText source = ⟨source, "Unnamed", "unnamed"⟩ := by
  simp [ofText, none]

theorem reread_of_words {source : String} (some_word : words source.toList ≠ []) :
    (ofText source).reread =
      String.ofList (guardDigit (Text.pascal (Text.camel source.toList))) := by
  have again := words_guardDigit (Text.camel source.toList)
  have some_left := words_camel_ne_nil some_word
  unfold reread
  rw [ofText_of_words some_word]
  unfold ofText Text.pascal
  simp [again, some_left]

theorem pascal_ne_empty (source : String) : (ofText source).pascal ≠ "" := by
  by_cases some_word : words source.toList = []
  · rw [ofText_of_no_words some_word]
    exact (by decide : "Unnamed" ≠ "")
  · obtain ⟨c, rest, capital, _⟩ := pascal_head some_word
    rw [ofText_of_words some_word]
    have letters : guardDigit (Text.pascal source.toList) ≠ [] :=
      guardDigit_ne_nil (by rw [capital]; exact List.cons_ne_nil _ _)
    exact fun empty => letters (by simpa using congrArg String.toList empty)

theorem pascal_prefix_reread_iff (source : String) {tail : String}
    (leading : Leading tail.toList) :
    (ofText source).pascal.toList <+: ((ofText source).reread ++ tail).toList ↔
      (ofText source).reread = (ofText source).pascal := by
  constructor
  · intro front
    rw [String.toList_append] at front
    by_cases some_word : words source.toList = []
    · rw [ofText_of_no_words some_word]
      exact (by decide : (ofText "unnamed").pascal = "Unnamed")
    · rw [reread_of_words some_word, ofText_of_words some_word] at front ⊢
      simp only [String.toList_ofList] at front
      have same := pascal_camel_of_prefix some_word leading
        (prefix_of_guardDigit (pascal_leading _) (pascal_leading _) leading front)
      rw [same]
  · intro same
    rw [same, String.toList_append]
    exact List.prefix_append _ _

theorem reread_eq_iff {source : String} (some_word : words source.toList ≠ []) :
    (ofText source).reread = (ofText source).pascal ↔
      Text.pascal (Text.camel source.toList) = Text.pascal source.toList := by
  rw [reread_of_words some_word, ofText_of_words some_word, String.ofList_inj]
  exact guardDigit_inj (pascal_leading _) (pascal_leading _)

end TypedClients.Name
