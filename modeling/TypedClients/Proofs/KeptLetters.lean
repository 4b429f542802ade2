import Mathlib.Data.List.Basic
import TypedClients.Proofs.Legibility
import TypedClients.Proofs.LowerCase

namespace TypedClients.Text

variable {s : List Char}

theorem Spread.flatten {cs : List Char} {ws : List (List Char)} (h : Spread cs ws) :
    ws.flatten = cs.filter isAlphanumeric := by
  induction h with
  | nil => rfl
  | skip separates _ ih =>
    rw [ih, List.filter_cons_of_neg]
    simp [separates]
  | word _ letters _ ih =>
    rw [List.flatten_cons, List.filter_append, ih, List.filter_eq_self.mpr letters]

theorem words_flatten (s : List Char) : (words s).flatten = s.filter isAlphanumeric :=
  (words_spread s).flatten

theorem words_eq_nil : words s = [] ↔ s.filter isAlphanumeric = [] := by
  rw [← words_flatten, List.flatten_eq_nil_iff]
  constructor
  · intro none w mem
    rw [none] at mem
    cases mem
  · intro empty
    apply List.eq_nil_iff_forall_not_mem.mpr
    intro w mem
    exact (words_chars mem).1 (empty w mem)

theorem toLower_toLower (c : Char) : c.toLower.toLower = c.toLower :=
  toLower_congr (f := Char.toLower) (by decide +kernel) c

theorem toLower_toUpper {c : Char} (ascii : isAscii c = true) : c.toUpper.toLower = c.toLower :=
  ascii_forall (P := fun c => c.toUpper.toLower = c.toLower) (by decide +kernel) ascii

theorem isDigit_toLower (c : Char) : c.toLower.isDigit = c.isDigit :=
  toLower_congr (f := Char.isDigit) (by decide +kernel) c

theorem capitalWord_toLower {w : List Char} (ascii : Ascii w) :
    (capitalWord w).map Char.toLower = w.map Char.toLower := by
  cases w with
  | nil => rfl
  | cons c rest =>
    have first := toLower_toUpper (ascii c List.mem_cons_self)
    rw [capitalWord_of_ascii ascii, List.map_cons, List.map_cons, List.map_map, first]
    congr 1
    apply List.map_congr_left
    intro d _
    exact toLower_toLower d

theorem pascal_toLower (ascii : Ascii s) :
    (pascal s).map Char.toLower = (s.filter isAlphanumeric).map Char.toLower := by
  have word : ∀ w ∈ words s, (capitalWord w).map Char.toLower = w.map Char.toLower :=
    fun w mem => capitalWord_toLower (asciiWord_of_mem_words ascii mem).ascii
  calc (pascal s).map Char.toLower
      = (words s).flatMap fun w => (capitalWord w).map Char.toLower := List.map_flatMap ..
    _ = (words s).flatMap fun w => w.map Char.toLower := List.flatMap_congr word
    _ = (words s).flatten.map Char.toLower := by rw [List.map_flatten, List.flatMap_def]
    _ = (s.filter isAlphanumeric).map Char.toLower := by rw [words_flatten]

theorem lower_toList {text : String} (ascii : Ascii text.toList) :
    (lower text).toList = text.toList.map Char.toLower := by
  have noSigma : 'Σ' ∉ text.toList := by
    intro mem
    exact absurd (ascii 'Σ' mem) (by decide)
  have form : ∀ c ∈ text.toList, smallForm c = [c.toLower] :=
    fun c mem => smallForm_of_ascii (ascii c mem)
  rw [lower, String.toList_ofList, lowerFrom_of_no_sigma noSigma, List.flatMap_congr form]
  exact List.map_eq_flatMap.symm

/-- The letters and digits of a text in their order, all of them small. -/
def smallLetters (text : String) : List Char :=
  (text.toList.filter Char.isAlphanum).map Char.toLower

theorem isAlphanumeric_of_ascii {c : Char} (ascii : isAscii c = true) :
    isAlphanumeric c = c.isAlphanum := if_pos ascii

theorem filter_isAlphanumeric (ascii : Ascii s) :
    s.filter isAlphanumeric = s.filter Char.isAlphanum := by
  apply List.filter_congr
  intro c mem
  exact isAlphanumeric_of_ascii (ascii c mem)

theorem smallLetters_eq {text : String} (ascii : Ascii text.toList) :
    smallLetters text = (text.toList.filter isAlphanumeric).map Char.toLower := by
  rw [smallLetters, filter_isAlphanumeric ascii]

theorem asciiWord_filter (ascii : Ascii s) : AsciiWord (s.filter isAlphanumeric) := by
  intro c mem
  obtain ⟨inside, letter⟩ := List.mem_filter.mp mem
  exact ⟨ascii c inside, letter⟩

theorem AsciiWord.leading {w : List Char} (h : AsciiWord w) : Leading w := by
  intro c first
  exact (h c (List.mem_of_mem_head? first)).2

theorem AsciiWord.guardDigit {w : List Char} (h : AsciiWord w) : Ascii (Name.guardDigit w) := by
  unfold Name.guardDigit
  split
  · exact List.forall_mem_cons.mpr ⟨by decide, h.ascii⟩
  · exact h.ascii

theorem spelling_of_ascii (ascii : Ascii s) (some_word : words s ≠ []) {cs : List Char}
    (either : cs = pascal s ∨ cs = camel s) :
    cs ≠ [] ∧ AsciiWord cs ∧ cs.map Char.toLower = (s.filter isAlphanumeric).map Char.toLower := by
  obtain ⟨c, rest, small, capital, _, letters⟩ := camel_of_ascii ascii some_word
  obtain ⟨first, later⟩ := List.forall_mem_cons.mp letters
  have same := pascal_toLower ascii
  rw [capital, List.map_cons, toLower_toUpper first.1] at same
  rcases either with rfl | rfl
  · have raised := toUpper_letter first.1 first.2
    rw [capital, List.map_cons, toLower_toUpper first.1]
    exact ⟨List.cons_ne_nil _ _, .cons raised.1 raised.2 later, same⟩
  · rw [small]
    exact ⟨List.cons_ne_nil _ _, letters, same⟩

theorem guardDigit_toLower (cs : List Char) :
    (Name.guardDigit cs).map Char.toLower = Name.guardDigit (cs.map Char.toLower) := by
  have head : (cs.map Char.toLower).head?.any Char.isDigit = cs.head?.any Char.isDigit := by
    cases cs with
    | nil => rfl
    | cons c rest => exact isDigit_toLower c
  unfold Name.guardDigit
  rw [head]
  split
  · rfl
  · rfl

end TypedClients.Text

namespace TypedClients.Name

open Text

/-- A letter or an underscore, and behind it letters and digits only. -/
def IsIdentifier (text : String) : Prop :=
  ∃ c rest, text.toList = c :: rest ∧ (c.isAlpha = true ∨ c = '_') ∧
    ∀ d ∈ rest, d.isAlphanum = true

theorem isIdentifier_guardDigit {c : Char} {rest : List Char} (h : AsciiWord (c :: rest)) :
    IsIdentifier (String.ofList (guardDigit (c :: rest))) := by
  have letters : ∀ d ∈ c :: rest, d.isAlphanum = true := by
    intro d mem
    obtain ⟨ascii, letter⟩ := h d mem
    rwa [isAlphanumeric_of_ascii ascii] at letter
  unfold IsIdentifier guardDigit
  rw [String.toList_ofList]
  by_cases digit : c.isDigit = true
  · exact ⟨'_', c :: rest, by simp [digit], .inr rfl, letters⟩
  · have alpha : c.isAlpha = true := by
      have either := letters c List.mem_cons_self
      rw [Char.isAlphanum, Bool.or_eq_true] at either
      exact either.resolve_right digit
    exact ⟨c, rest, by simp [digit], .inl alpha, fun d mem => letters d (List.mem_cons_of_mem _ mem)⟩

variable {source : String}

theorem words_ne_nil_iff (ascii : Ascii source.toList) :
    words source.toList ≠ [] ↔ ∃ c ∈ source.toList, c.isAlphanum = true := by
  rw [Ne, words_eq_nil, filter_isAlphanumeric ascii, List.filter_eq_nil_iff]
  push Not
  rfl

theorem spelling_guarded (ascii : Ascii source.toList) (some_word : words source.toList ≠ [])
    {text : String} (either : text = (ofText source).pascal ∨ text = (ofText source).camel) :
    IsIdentifier text ∧ (lower text).toList = guardDigit (smallLetters source) := by
  rw [ofText_of_words some_word] at either
  obtain ⟨cs, spelling, rfl⟩ : ∃ cs, (cs = Text.pascal source.toList ∨
      cs = Text.camel source.toList) ∧ text = String.ofList (guardDigit cs) := by
    rcases either with rfl | rfl
    · exact ⟨_, .inl rfl, rfl⟩
    · exact ⟨_, .inr rfl, rfl⟩
  obtain ⟨some_char, letters, small⟩ := spelling_of_ascii ascii some_word spelling
  constructor
  · obtain ⟨c, rest, rfl⟩ := List.exists_cons_of_ne_nil some_char
    exact isIdentifier_guardDigit letters
  · have guarded : Ascii (String.ofList (guardDigit cs)).toList := by
      rw [String.toList_ofList]
      exact letters.guardDigit
    rw [lower_toList guarded, String.toList_ofList, guardDigit_toLower, small,
      smallLetters_eq ascii]

theorem guardDigit_eq_append (cs : List Char) :
    guardDigit cs = (if cs.head?.any Char.isDigit then ['_'] else []) ++ cs := by
  unfold guardDigit
  split
  · rfl
  · rfl

theorem leading_smallLetters (ascii : Ascii source.toList) : Leading (smallLetters source) := by
  rw [smallLetters_eq ascii]
  exact (asciiWord_filter ascii).map_toLower.leading

/-- Both identifiers of a text spell its letters and digits, so two texts have the same ones, but for
capitals, where their letters and digits are the same. A text without any goes by `unnamed`. -/
theorem ofText_keeps_letters (ascii : Ascii source.toList)
    (some_letter : ∃ c ∈ source.toList, c.isAlphanum = true) :
    lower (ofText source).pascal = lower (ofText source).camel ∧
    (lower (ofText source).camel).toList =
      (if (smallLetters source).head?.any Char.isDigit then ['_'] else []) ++
        smallLetters source ∧
    IsIdentifier (ofText source).pascal ∧ IsIdentifier (ofText source).camel ∧
    (∀ other, Ascii other.toList → (∃ c ∈ other.toList, c.isAlphanum = true) →
      (lower (ofText source).pascal = lower (ofText other).pascal ↔
        smallLetters source = smallLetters other) ∧
      (lower (ofText source).camel = lower (ofText other).camel ↔
        smallLetters source = smallLetters other)) ∧
    (∀ other, Ascii other.toList → (∀ c ∈ other.toList, c.isAlphanum = false) →
      (ofText other).pascal = (ofText "unnamed").pascal ∧
        (ofText other).camel = (ofText "unnamed").camel) := by
  have some_word := (words_ne_nil_iff ascii).mpr some_letter
  obtain ⟨plain, capital⟩ := spelling_guarded ascii some_word (.inl rfl)
  obtain ⟨plain', small⟩ := spelling_guarded ascii some_word (.inr rfl)
  have leading := leading_smallLetters ascii
  refine ⟨?_, ?_, plain, plain', ?_, ?_⟩
  · apply String.toList_injective
    rw [capital, small]
  · rw [small, guardDigit_eq_append]
  · intro other ascii' some_letter'
    have some_word' := (words_ne_nil_iff ascii').mpr some_letter'
    obtain ⟨_, capital'⟩ := spelling_guarded ascii' some_word' (.inl rfl)
    obtain ⟨_, small'⟩ := spelling_guarded ascii' some_word' (.inr rfl)
    have same := guardDigit_inj leading (leading_smallLetters ascii')
    constructor
    · rw [← String.toList_inj, capital, capital', same]
    · rw [← String.toList_inj, small, small', same]
  · intro other ascii' no_letter
    have nameless : words other.toList = [] := by
      by_contra some_word'
      obtain ⟨c, mem, letter⟩ := (words_ne_nil_iff ascii').mp some_word'
      rw [no_letter c mem] at letter
      cases letter
    rw [ofText_of_no_words nameless]
    have capital : "Unnamed" = (ofText "unnamed").pascal := by decide
    have small : "unnamed" = (ofText "unnamed").camel := by decide
    exact ⟨capital, small⟩

theorem ofText_keeps_letters_model :
    lower (ofText "3D-Model").pascal = lower (ofText "3D-Model").camel ∧
    (lower (ofText "3D-Model").camel).toList = "_3dmodel".toList ∧
    IsIdentifier (ofText "3D-Model").pascal ∧
    lower (ofText "3D-Model").camel = lower (ofText "3dMODEL").camel ∧
    (ofText "--").camel = (ofText "unnamed").camel := by
  have ascii : Ascii "3D-Model".toList := by decide
  have some_letter : ∃ c ∈ "3D-Model".toList, c.isAlphanum = true := ⟨'M', by decide, by decide⟩
  obtain ⟨both, spelled, identifier, _, alike, nameless⟩ := ofText_keeps_letters ascii some_letter
  have letters : smallLetters "3D-Model" = "3dmodel".toList := by decide
  refine ⟨both, ?_, identifier, ?_, (nameless "--" (by decide) (by simp)).2⟩
  · rw [spelled, letters]
    decide
  · exact (alike "3dMODEL" (by decide) ⟨'M', by decide, by decide⟩).2.mpr (by decide)

end TypedClients.Name
