import TypedClients.Proofs.Recasing

namespace TypedClients.Text

/-- A capital begins a word behind a small letter, or behind a capital and in front of a small
letter; digits in between do not matter. -/
def legibleHere (last : CaseMode) (c : Char) (rest : List Char) : Bool :=
  !isUppercase c || last == .small || (last == .capital && rest.head?.any isLowercase)

def legibleFrom (last : CaseMode) : List Char → Bool
  | [] => true
  | c :: rest => legibleHere last c rest && legibleFrom (last.after c) rest

theorem legibleFrom_cons {last : CaseMode} {c : Char} {rest : List Char} :
    legibleFrom last (c :: rest) = true ↔
      legibleHere last c rest = true ∧ legibleFrom (last.after c) rest = true := by
  rw [legibleFrom, Bool.and_eq_true]

def legible (cs : List Char) : Bool := legibleFrom .boundary cs

def Plain (w : List Char) : Prop := ∀ c ∈ w.tail, isUppercase c = false

theorem plain_concat {w : List Char} {c : Char} :
    Plain (w ++ [c]) ↔ Plain w ∧ (w = [] ∨ isUppercase c = false) := by
  cases w with
  | nil => simp [Plain]
  | cons d rest =>
    simp only [Plain, List.cons_append, List.tail_cons, List.mem_append, List.mem_singleton]
    constructor
    · exact fun h => ⟨fun c mem => h c (.inl mem), .inr (h c (.inr rfl))⟩
    · rintro ⟨h, none | last⟩ e (mem | rfl)
      · exact h e mem
      · cases none
      · exact h e mem
      · exact last

theorem isUppercase_of_isLowercase {c : Char} (ascii : isAscii c = true)
    (small : isLowercase c = true) : isUppercase c = false :=
  ascii_forall (P := fun c => isLowercase c = true → isUppercase c = false) (by decide +kernel)
    ascii small

/-- How the state in which a run is split goes with the last letter in front of what is left. -/
inductive Reads : CaseMode → List Char → CaseMode → List Char → Prop
  | start {cs : List Char} (low : cs.head?.any isUppercase = false) :
      Reads .boundary [] .boundary cs
  | digits {word cs : List Char} (inside : word ≠ []) : Reads .boundary word .boundary cs
  | cut {cs : List Char} (high : cs.head?.any isUppercase = true) : Reads .boundary [] .small cs
  | kept {c : Char} {cs : List Char} (low : cs.head?.any isLowercase = true) :
      Reads .boundary [c] .capital cs
  | small {word cs : List Char} (inside : word ≠ []) (low : cs.head?.any isUppercase = false) :
      Reads .small word .small cs
  | capital {word cs : List Char} (inside : word ≠ []) : Reads .capital word .capital cs

namespace Reads

variable {mode last : CaseMode} {word rest : List Char} {c : Char}

theorem legible_iff (h : Reads mode word last (c :: rest)) (ascii : isAscii c = true)
    (uncut : ¬(mode = .capital ∧ isUppercase c = true ∧ rest.head?.any isLowercase = true)) :
    legibleHere last c rest = true ↔ word = [] ∨ isUppercase c = false := by
  unfold legibleHere
  cases capital : isUppercase c with
  | false => simp
  | true =>
    cases h with
    | start low => simp [capital] at low
    | digits inside => simp [inside]
    | cut _ => simp
    | kept low =>
      have small : isLowercase c = true := by simpa using low
      rw [isUppercase_of_isLowercase ascii small] at capital
      cases capital
    | small _ low => simp [capital] at low
    | capital inside =>
      have before : rest.head?.any isLowercase = false := by simpa [capital] using uncut
      simp [inside, before]

theorem step (h : Reads mode word last (c :: rest))
    (uncut : ¬(mode.after c = .small ∧ rest.head?.any isUppercase = true)) :
    Reads (mode.after c) (c :: word) (last.after c) rest := by
  have inside : c :: word ≠ [] := List.cons_ne_nil _ _
  unfold CaseMode.after at uncut ⊢
  cases small : isLowercase c with
  | true => exact .small inside (by simpa [small] using uncut)
  | false =>
    cases capital : isUppercase c with
    | true => exact .capital inside
    | false =>
      cases h with
      | start _ => exact .digits inside
      | digits _ => exact .digits inside
      | cut high => simp [capital] at high
      | kept low => simp [small] at low
      | small _ _ => exact .small inside (by simpa [small, capital] using uncut)
      | capital _ => exact .capital inside

theorem small_after (h : Reads mode word last (c :: rest)) (after : mode.after c = .small) :
    last.after c = .small := by
  unfold CaseMode.after at after ⊢
  split
  · rfl
  · rename_i other
    rw [if_neg other] at after
    split at after
    · cases after
    · rename_i caseless
      subst after
      cases h
      exact if_neg caseless

end Reads

theorem isUppercase_of_after {mode : CaseMode} {c : Char} (ascii : isAscii c = true)
    (after : mode.after c = .small) : isUppercase c = false := by
  unfold CaseMode.after at after
  split at after
  · rename_i small
    exact isUppercase_of_isLowercase ascii small
  · split at after
    · cases after
    · rename_i other
      simpa using other

theorem after_of_isUppercase {last : CaseMode} {c : Char} (ascii : isAscii c = true)
    (capital : isUppercase c = true) : last.after c = .capital := by
  unfold CaseMode.after
  split
  · rename_i small
    rw [isUppercase_of_isLowercase ascii small] at capital
    cases capital
  · rfl

theorem splitCase_plain {mode last : CaseMode} {word cs : List Char}
    (reads : Reads mode word last cs) (ascii : ∀ c ∈ cs, isAscii c = true) (some_left : cs ≠ []) :
    (∀ w ∈ splitCase mode word cs, Plain w) ↔ Plain word.reverse ∧ legibleFrom last cs = true := by
  fun_induction splitCase mode word cs generalizing last with
  | case1 => exact absurd rfl some_left
  | case2 mode word c =>
    have here := reads.legible_iff (ascii c List.mem_cons_self) (by simp)
    rw [List.forall_mem_singleton, List.reverse_cons, plain_concat, legibleFrom_cons, here]
    simp [legibleFrom]
  | case3 mode word c next rest cut ih =>
    have low := isUppercase_of_after (ascii c List.mem_cons_self) cut.1
    have later := ih (.cut (by simpa using cut.2))
      (fun d mem => ascii d (List.mem_cons_of_mem _ mem)) (List.cons_ne_nil _ _)
    rw [List.forall_mem_cons, later, List.reverse_cons, plain_concat, legibleFrom_cons (c := c),
      reads.small_after cut.1]
    simp [low, Plain, legibleHere]
  | case4 mode word c next rest _ cut ih =>
    obtain ⟨rfl, capital, small⟩ := cut
    have later := ih (.kept (by simpa using small))
      (fun d mem => ascii d (List.mem_cons_of_mem _ mem)) (List.cons_ne_nil _ _)
    cases reads with
    | capital inside =>
      rw [List.forall_mem_cons, later, legibleFrom_cons (c := c),
        after_of_isUppercase (ascii c List.mem_cons_self) capital]
      simp [small, Plain, legibleHere]
  | case5 mode word c next rest uncut uncut_before ih =>
    have here := reads.legible_iff (ascii c List.mem_cons_self) (by simpa using uncut_before)
    have later := ih (reads.step (by simpa using uncut))
      (fun d mem => ascii d (List.mem_cons_of_mem _ mem)) (List.cons_ne_nil _ _)
    rw [later, List.reverse_cons, plain_concat, legibleFrom_cons (c := c), here, and_assoc]
    simp

theorem head_of_flatten {c : Char} {cs : List Char} {ws : List (List Char)}
    (nonempty : ∀ w ∈ ws, w ≠ []) (flat : ws.flatten = c :: cs) :
    ∃ v more, ws = (c :: v) :: more := by
  cases ws with
  | nil => cases flat
  | cons w more =>
    obtain ⟨d, v, rfl⟩ := List.exists_cons_of_ne_nil (nonempty w List.mem_cons_self)
    cases (List.cons.inj flat).1
    exact ⟨v, more, rfl⟩

def Begins (w : List Char) : Prop := w.head?.any isUppercase = true

theorem splitCase_begins {mode : CaseMode} {word cs : List Char}
    (open_word : mode = .capital → word ≠ []) :
    ∀ w ∈ (splitCase mode word cs).tail, Begins w := by
  have all : ∀ {word cs c rest}, cs ≠ [] → word.reverse ++ cs = c :: rest →
      isUppercase c = true → (∀ w ∈ (splitCase .boundary word cs).tail, Begins w) →
        ∀ w ∈ splitCase .boundary word cs, Begins w := by
    intro word cs c rest some_left whole capital later
    have flat : (splitCase .boundary word cs).flatten = c :: rest :=
      (splitCase_flatten some_left).trans whole
    obtain ⟨v, more, parts⟩ := head_of_flatten
      (fun w mem => (splitCase_chars (fun given => by cases given) w mem).1) flat
    rw [parts] at later ⊢
    exact List.forall_mem_cons.mpr ⟨by simpa [Begins] using capital, later⟩
  fun_induction splitCase mode word cs with
  | case1 => exact fun _ mem => absurd mem List.not_mem_nil
  | case2 => exact fun _ mem => absurd mem List.not_mem_nil
  | case3 mode word c next rest cut ih =>
    exact all (List.cons_ne_nil _ _) rfl cut.2 (ih fun given => by cases given)
  | case4 mode word c next rest _ cut ih =>
    exact all (List.cons_ne_nil _ _) rfl cut.2.1 (ih fun given => by cases given)
  | case5 mode word c next rest _ _ ih => exact ih fun _ => List.cons_ne_nil _ _

def Ascii (cs : List Char) : Prop := ∀ c ∈ cs, isAscii c = true

instance : DecidablePred Ascii := fun cs => List.decidableBAll (fun c => isAscii c = true) cs

theorem smallForm_of_ascii {c : Char} (ascii : isAscii c = true) : smallForm c = [c.toLower] :=
  if_pos ascii

theorem smallWord_of_ascii {w : List Char} (ascii : Ascii w) :
    smallWord w = w.map Char.toLower := by
  have form : ∀ c ∈ w, smallForm c = [c.toLower] := fun c mem => smallForm_of_ascii (ascii c mem)
  fun_induction smallWord w with
  | case1 => rfl
  | case2 c sigma =>
    have same : c = 'Σ' := by simpa using sigma
    exact absurd (ascii c List.mem_cons_self) (by rw [same]; decide)
  | case3 c _ => exact form c List.mem_cons_self
  | case4 c rest _ ih =>
    rw [form c List.mem_cons_self, ih (fun d mem => ascii d (List.mem_cons_of_mem _ mem))
      fun d mem => form d (List.mem_cons_of_mem _ mem)]
    rfl

theorem capitalWord_of_ascii {c : Char} {rest : List Char} (ascii : Ascii (c :: rest)) :
    capitalWord (c :: rest) = c.toUpper :: rest.map Char.toLower := by
  have form : capitalForm c = [c.toUpper] := if_pos (ascii c List.mem_cons_self)
  rw [capitalWord, form, smallWord_of_ascii fun d mem => ascii d (List.mem_cons_of_mem _ mem)]
  rfl

theorem map_toLower_eq_iff {cs : List Char} (ascii : Ascii cs) :
    cs.map Char.toLower = cs ↔ ∀ c ∈ cs, isUppercase c = false := by
  have letter : ∀ c ∈ cs, c.toLower = c ↔ isUppercase c = false := fun c mem =>
    ascii_forall (P := fun c => c.toLower = c ↔ isUppercase c = false) (by decide +kernel)
      (ascii c mem)
  have whole : cs.map Char.toLower = cs ↔ ∀ c ∈ cs, c.toLower = c := by
    simpa using List.map_eq_map_iff (f := Char.toLower) (g := id) (l := cs)
  rw [whole]
  exact forall₂_congr letter

theorem capitalWord_append_eq_iff {c : Char} {rest : List Char} (ascii : Ascii (c :: rest))
    (out cs : List Char) :
    capitalWord (c :: rest) ++ out = c.toUpper :: (rest ++ cs) ↔ Plain (c :: rest) ∧ out = cs := by
  have word := map_toLower_eq_iff fun d mem => ascii d (List.mem_cons_of_mem _ mem)
  rw [capitalWord_of_ascii ascii, List.cons_append, List.cons_inj_right]
  constructor
  · intro same
    obtain ⟨small, later⟩ := List.append_inj same (List.length_map _)
    exact ⟨word.mp small, later⟩
  · rintro ⟨plain, rfl⟩
    rw [word.mpr plain]

theorem flatMap_capitalWord_eq_iff {ws : List (List Char)} (ascii : ∀ w ∈ ws, Ascii w)
    (begins : ∀ w ∈ ws, Begins w) :
    ws.flatMap capitalWord = ws.flatten ↔ ∀ w ∈ ws, Plain w := by
  induction ws with
  | nil => simp
  | cons w more ih =>
    have here := begins w List.mem_cons_self
    have later := ih (fun v mem => ascii v (List.mem_cons_of_mem _ mem))
      fun v mem => begins v (List.mem_cons_of_mem _ mem)
    cases w with
    | nil => cases here
    | cons c rest =>
      have letters := ascii _ List.mem_cons_self
      have raised : c.toUpper = c :=
        ascii_forall (P := fun c => isUppercase c = true → c.toUpper = c) (by decide +kernel)
          (letters c List.mem_cons_self) (by simpa [Begins] using here)
      have split_up :=
        capitalWord_append_eq_iff letters (more.flatMap capitalWord) more.flatten
      rw [raised] at split_up
      rw [List.flatMap_cons, List.flatten_cons, List.cons_append, split_up, later,
        List.forall_mem_cons]

theorem words_of_alphanumeric {cs : List Char} (some_left : cs ≠ [])
    (letters : ∀ c ∈ cs, isAlphanumeric c = true) : words cs = splitCase .boundary [] cs := by
  have single : ∀ run, run ≠ [] ∨ cs ≠ [] → runs isAlphanumeric run cs = [run.reverse ++ cs] := by
    clear some_left
    induction cs with
    | nil =>
      intro run some_left
      simp [runs, some_left.resolve_right (not_not_intro rfl)]
    | cons c rest ih =>
      intro run _
      rw [runs, if_pos (letters c List.mem_cons_self),
        ih (fun d mem => letters d (List.mem_cons_of_mem _ mem)) _ (.inl (List.cons_ne_nil _ _))]
      simp
  rw [words, single [] (.inr some_left)]
  simp

theorem pascal_eq_iff_legible {c : Char} {rest : List Char} (ascii : Ascii (c :: rest))
    (letters : ∀ d ∈ c :: rest, isAlphanumeric d = true) (low : isUppercase c = false) :
    pascal (c :: rest) = c.toUpper :: rest ↔ legible (c :: rest) = true := by
  have some_left : c :: rest ≠ [] := List.cons_ne_nil _ _
  have plain := splitCase_plain (.start (by simpa using low)) ascii some_left
  have flat : (splitCase .boundary [] (c :: rest)).flatten = c :: rest :=
    splitCase_flatten some_left
  have chars : ∀ w ∈ splitCase .boundary [] (c :: rest), w ≠ [] ∧ ∀ d ∈ w, d ∈ [] ∨ d ∈ c :: rest :=
    splitCase_chars fun given => by cases given
  have begins : ∀ w ∈ (splitCase .boundary [] (c :: rest)).tail, Begins w :=
    splitCase_begins fun given => by cases given
  rw [pascal, words_of_alphanumeric some_left letters, legible]
  obtain ⟨v, more, parts⟩ := head_of_flatten (fun w mem => (chars w mem).1) flat
  rw [parts] at plain chars flat begins ⊢
  have inside : ∀ w ∈ (c :: v) :: more, Ascii w := fun w mem d own =>
    ascii d (((chars w mem).2 d own).resolve_left List.not_mem_nil)
  have same : rest = v ++ more.flatten := by simpa using flat.symm
  have later :=
    flatMap_capitalWord_eq_iff (fun w mem => inside w (List.mem_cons_of_mem _ mem)) begins
  rw [List.flatMap_cons, same, capitalWord_append_eq_iff (inside _ List.mem_cons_self) _ _, later,
    ← List.forall_mem_cons (p := Plain), plain, ← same]
  simp [Plain]

theorem Spread.mem {cs : List Char} {ws : List (List Char)} (h : Spread cs ws) {w : List Char}
    (listed : w ∈ ws) {c : Char} (inside : c ∈ w) : c ∈ cs := by
  induction h with
  | nil => cases listed
  | skip _ _ ih => exact List.mem_cons_of_mem _ (ih listed)
  | word _ _ _ ih =>
    rcases List.mem_cons.mp listed with rfl | later
    · exact List.mem_append_left _ inside
    · exact List.mem_append_right _ (ih later)

def AsciiWord (w : List Char) : Prop := ∀ c ∈ w, isAscii c = true ∧ isAlphanumeric c = true

theorem AsciiWord.ascii {w : List Char} (h : AsciiWord w) : Ascii w := fun c mem => (h c mem).1

theorem AsciiWord.cons {c : Char} {w : List Char} (ascii : isAscii c = true)
    (letter : isAlphanumeric c = true) (h : AsciiWord w) : AsciiWord (c :: w) :=
  List.forall_mem_cons.mpr ⟨⟨ascii, letter⟩, h⟩

theorem AsciiWord.map_toLower {w : List Char} (h : AsciiWord w) :
    AsciiWord (w.map Char.toLower) := by
  intro d mem
  obtain ⟨c, inside, rfl⟩ := List.mem_map.mp mem
  obtain ⟨ascii, letter⟩ := h c inside
  exact ascii_forall (P := fun c => isAlphanumeric c = true →
    isAscii c.toLower = true ∧ isAlphanumeric c.toLower = true) (by decide +kernel) ascii letter

theorem toUpper_letter {c : Char} (ascii : isAscii c = true) (letter : isAlphanumeric c = true) :
    isAscii c.toUpper = true ∧ isAlphanumeric c.toUpper = true :=
  ascii_forall (P := fun c => isAlphanumeric c = true →
    isAscii c.toUpper = true ∧ isAlphanumeric c.toUpper = true) (by decide +kernel) ascii letter

theorem AsciiWord.capitalWord {w : List Char} (h : AsciiWord w) :
    AsciiWord (Text.capitalWord w) := by
  cases w with
  | nil => exact h
  | cons c rest =>
    obtain ⟨here, later⟩ := List.forall_mem_cons.mp h
    have raised := toUpper_letter here.1 here.2
    rw [capitalWord_of_ascii h.ascii]
    exact .cons raised.1 raised.2 (map_toLower later)

theorem asciiWord_of_mem_words {s w : List Char} (ascii : Ascii s) (mem : w ∈ words s) :
    AsciiWord w := fun c inside =>
  ⟨ascii c ((words_spread s).mem mem inside), (words_chars mem).2 c inside⟩

theorem camel_of_ascii {s : List Char} (ascii : Ascii s) (some_word : words s ≠ []) :
    ∃ c rest, camel s = c :: rest ∧ pascal s = c.toUpper :: rest ∧ isUppercase c = false ∧
      AsciiWord (c :: rest) := by
  have chars : ∀ w ∈ words s, AsciiWord w := fun w mem => asciiWord_of_mem_words ascii mem
  have nonempty : ∀ w ∈ words s, w ≠ [] := fun w mem => (words_chars mem).1
  obtain ⟨first, later, split_up⟩ := List.exists_cons_of_ne_nil some_word
  rw [split_up] at chars nonempty
  obtain ⟨c, tail, rfl⟩ := List.exists_cons_of_ne_nil (nonempty first List.mem_cons_self)
  have word := chars _ List.mem_cons_self
  have low : isUppercase c.toLower = false :=
    ascii_forall (P := fun c => isUppercase c.toLower = false) (by decide +kernel)
      (word.ascii c List.mem_cons_self)
  have raised : c.toLower.toUpper = c.toUpper :=
    toLower_congr (f := Char.toUpper) (by decide +kernel) c
  have letters : AsciiWord (c.toLower :: (tail.map Char.toLower ++ later.flatMap capitalWord)) := by
    intro d mem
    rw [← List.cons_append, ← List.map_cons] at mem
    rcases List.mem_append.mp mem with own | other
    · exact word.map_toLower d own
    · obtain ⟨w, listed, inside⟩ := List.mem_flatMap.mp other
      exact (chars w (List.mem_cons_of_mem _ listed)).capitalWord d inside
  refine ⟨_, _, ?_, ?_, low, letters⟩
  · rw [camel, split_up]
    dsimp only
    rw [smallWord_of_ascii word.ascii]
    rfl
  · rw [pascal, split_up, List.flatMap_cons, capitalWord_of_ascii word.ascii, raised]
    rfl

theorem legible_guardDigit (cs : List Char) : legible (Name.guardDigit cs) = legible cs := by
  unfold Name.guardDigit
  split
  · have caseless : isUppercase '_' = false := by decide
    have skipped : legibleHere .boundary '_' cs = true := by simp [legibleHere, caseless]
    have after : CaseMode.boundary.after '_' = .boundary := by decide
    rw [legible, legibleFrom, skipped, after]
    rfl
  · rfl

end TypedClients.Text

namespace TypedClients.Name

open Text

theorem reread_eq_iff_legible {source : String} (ascii : Ascii source.toList) :
    (ofText source).reread = (ofText source).pascal ↔
      legible (ofText source).camel.toList = true := by
  by_cases some_word : words source.toList = []
  · rw [ofText_of_no_words some_word]
    exact iff_of_true (by decide : (ofText "unnamed").pascal = "Unnamed")
      (by decide : legible "unnamed".toList = true)
  · obtain ⟨c, rest, camel, pascal, low, letters⟩ := camel_of_ascii ascii some_word
    have same := pascal_eq_iff_legible letters.ascii (fun d mem => (letters d mem).2) low
    rw [reread_eq_iff some_word, camel, pascal, same, ofText_of_words some_word]
    dsimp only
    rw [String.toList_ofList, legible_guardDigit, camel]

end TypedClients.Name
