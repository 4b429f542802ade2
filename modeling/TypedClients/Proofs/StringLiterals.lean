import Mathlib.Data.List.Forall2
import TypedClients.Client.Request
import TypedClients.Json.Reader
import TypedClients.TypeScript.Declaration

namespace TypedClients.TypeScript

def codeUnits (n : Nat) : List Nat :=
  if n < 0x10000 then [n] else [0xD800 + (n - 0x10000) / 0x400, 0xDC00 + (n - 0x10000) % 0x400]

def unitsOf (cs : List Char) : List Nat := cs.flatMap fun c => codeUnits c.toNat

def units (s : String) : List Nat := unitsOf s.toList

namespace Literal

open Json (hexValue?)

inductive Reading where
  | text
  | escape
  | code (left value : Nat)
  | unicode
  | braces (value : Option Nat)
  /-- Behind an escaped zero, which no digit may follow. -/
  | zero
  /-- Behind an escaped carriage return, which a line feed may follow. -/
  | carriage
deriving DecidableEq, Repr

/-- The characters that mean something else behind a backslash: what comes of them, and how the
reader goes on. An escaped line break is left out. -/
def escapes : List (Char × List Nat × Reading) :=
  [('b', [8], .text), ('t', [9], .text), ('n', [10], .text), ('v', [11], .text), ('f', [12], .text),
   ('r', [13], .text), ('0', [0], .zero), ('x', [], .code 1 0), ('u', [], .unicode),
   ('\n', [], .text), ('\r', [], .carriage), ('\u2028', [], .text), ('\u2029', [], .text)]

/-- The code units that come of a character, and where the reader stands behind it: nowhere, when
the character closes the literal. -/
abbrev Progress := List Nat × Option Reading

def stepText (c : Char) : Option Progress :=
  if c = '\'' then some ([], none)
  else if c = '\\' then some ([], some .escape)
  else if c = '\n' ∨ c = '\r' then none
  else some (codeUnits c.toNat, some .text)

/-- A digit other than zero cannot be escaped, any other character stands for itself. -/
def stepEscape (c : Char) : Option Progress :=
  match escapes.find? (·.1 == c) with
  | some (_, read, next) => some (read, some next)
  | none => if c.isDigit then none else some (codeUnits c.toNat, some .text)

def stepCode (left value : Nat) (c : Char) : Option Progress :=
  (hexValue? c).map fun d =>
    match left with
    | 0 => ([value * 16 + d], some .text)
    | left + 1 => ([], some (.code left (value * 16 + d)))

def stepBraces (value : Option Nat) (c : Char) : Option Progress :=
  if c = '\x7d' then value.map fun n => (codeUnits n, some .text)
  else (hexValue? c).bind fun d =>
    if value.getD 0 * 16 + d ≤ 0x10FFFF then some ([], some (.braces (value.getD 0 * 16 + d)))
    else none

def step : Reading → Char → Option Progress
  | .text, c => stepText c
  | .escape, c => stepEscape c
  | .code left value, c => stepCode left value c
  | .unicode, c => if c = '\x7b' then some ([], some (.braces none)) else stepCode 3 0 c
  | .braces value, c => stepBraces value c
  | .zero, c => if c.isDigit then none else stepText c
  | .carriage, c => if c = '\n' then some ([], some .text) else stepText c

/-- The value up to the quote that closes the literal, and what stands behind it. -/
def readFrom : Reading → List Char → Option (List Nat × List Char)
  | _, [] => none
  | state, c :: rest =>
    match step state c with
    | none => none
    | some (read, none) => some (read, rest)
    | some (read, some next) => (readFrom next rest).map fun r => (read ++ r.1, r.2)

def read? : List Char → Option (List Nat × List Char)
  | '\'' :: rest => readFrom .text rest
  | _ => none

variable {state : Reading} {next : Option Reading} {c : Char} {cs rest : List Char}
  {read : List Nat}

def cost (read : List Nat) : Nat := 2 * read.length + read.count 39

def credit : Option Reading → Nat
  | none => 2
  | some .escape => 1
  | some (.code _ _) => 3
  | some .unicode => 3
  | some (.braces _) => 3
  | some _ => 0

theorem count_codeUnits (n : Nat) : (codeUnits n).count 39 = if n = 39 then 1 else 0 := by
  unfold codeUnits
  split
  · rw [List.count_singleton]
    simp
  · rw [if_neg (by omega)]
    refine List.count_eq_zero.mpr fun listed => ?_
    simp only [List.mem_cons, List.not_mem_nil, or_false] at listed
    omega

theorem length_codeUnits (n : Nat) : 1 ≤ (codeUnits n).length ∧
    cost (codeUnits n) ≤ 2 * (codeUnits n).length + 1 ∧ cost (codeUnits n) ≤ 5 := by
  unfold cost
  rw [count_codeUnits]
  unfold codeUnits
  split <;> split <;> simp

theorem cost_of_ne (other : c ≠ '\'') :
    cost (codeUnits c.toNat) = 2 * (codeUnits c.toNat).length := by
  have different : c.toNat ≠ 39 := fun same => other (Char.toNat_inj.mp same)
  rw [cost, count_codeUnits, if_neg different, Nat.add_zero]

theorem cost_nil : cost [] = 0 := rfl

theorem cost_singleton (n : Nat) : cost [n] ≤ 3 := by
  unfold cost
  rw [List.count_singleton]
  split <;> simp

theorem cost_append (read later : List Nat) : cost (read ++ later) = cost read + cost later := by
  unfold cost
  rw [List.length_append, List.count_append]
  omega

def Affords (state : Reading) (c : Char) (read : List Nat) (next : Option Reading) : Prop :=
  [c].count '\\' + cost read + credit next ≤ 2 * (codeUnits c.toNat).length + credit (some state)

instance : Decidable (Affords state c read next) := inferInstanceAs (Decidable (_ ≤ _))

theorem count_other (other : c ≠ '\\') : [c].count '\\' = 0 :=
  List.count_eq_zero.mpr fun listed => other (List.mem_singleton.mp listed).symm

theorem stepText_affords (h : stepText c = some (read, next)) : Affords .text c read next := by
  unfold stepText at h
  split at h
  · rename_i quote
    subst quote
    cases h
    decide
  · rename_i noQuote
    split at h
    · rename_i backslash
      subst backslash
      cases h
      decide
    · rename_i noBackslash
      split at h
      · cases h
      · cases h
        unfold Affords
        rw [count_other noBackslash, cost_of_ne noQuote]
        simp [credit]

theorem escapes_cost : ∀ entry ∈ escapes, entry.1 ≠ '\\' ∧
    cost entry.2.1 + credit (some entry.2.2) ≤ 3 := by decide

theorem stepEscape_affords (h : stepEscape c = some (read, next)) :
    Affords .escape c read next := by
  obtain ⟨one, more, _⟩ := length_codeUnits c.toNat
  unfold Affords
  unfold stepEscape at h
  split at h
  · rename_i char escaped state found
    cases h
    obtain ⟨other, small⟩ := escapes_cost _ (List.mem_of_find?_eq_some found)
    have same : char = c := by simpa using List.find?_some found
    subst same
    rw [count_other other]
    simp only [credit] at small ⊢
    omega
  · split at h
    · cases h
    · cases h
      by_cases backslash : c = '\\'
      · subst backslash
        decide
      · rw [count_other backslash]
        simp only [credit]
        omega

theorem hexValue_ne (digit : (hexValue? c).isSome) : c ≠ '\\' := by
  rintro rfl
  exact absurd digit (by decide)

theorem stepCode_affords {left value : Nat} (h : stepCode left value c = some (read, next)) :
    Affords (.code left value) c read next := by
  obtain ⟨one, _, _⟩ := length_codeUnits c.toNat
  obtain ⟨d, digit, taken⟩ := Option.map_eq_some_iff.mp h
  unfold Affords
  rw [count_other (hexValue_ne (digit ▸ rfl))]
  cases left with
  | zero =>
    cases taken
    have small := cost_singleton (value * 16 + d)
    simp only [credit]
    omega
  | succ left =>
    cases taken
    rw [cost_nil]
    simp only [credit]
    omega

theorem stepBraces_affords {value : Option Nat} (h : stepBraces value c = some (read, next)) :
    Affords (.braces value) c read next := by
  unfold Affords
  unfold stepBraces at h
  split at h
  · rename_i brace
    subst brace
    obtain ⟨n, _, taken⟩ := Option.map_eq_some_iff.mp h
    cases taken
    obtain ⟨_, _, small⟩ := length_codeUnits n
    have one : (codeUnits '\x7d'.toNat).length = 1 := rfl
    rw [count_other (by decide), one]
    simp only [credit]
    omega
  · obtain ⟨d, digit, taken⟩ := Option.bind_eq_some_iff.mp h
    obtain ⟨one, _, _⟩ := length_codeUnits c.toNat
    rw [count_other (hexValue_ne (digit ▸ rfl))]
    split at taken
    · cases taken
      rw [cost_nil]
      simp only [credit]
      omega
    · cases taken

theorem step_affords (h : step state c = some (read, next)) : Affords state c read next := by
  cases state with
  | text => exact stepText_affords h
  | escape => exact stepEscape_affords h
  | code left value => exact stepCode_affords h
  | braces value => exact stepBraces_affords h
  | unicode =>
    simp only [step] at h
    split at h
    · rename_i brace
      subst brace
      cases h
      decide
    · exact stepCode_affords h
  | zero =>
    simp only [step] at h
    split at h
    · cases h
    · exact stepText_affords h
  | carriage =>
    simp only [step] at h
    split at h
    · rename_i feed
      subst feed
      cases h
      decide
    · exact stepText_affords h

theorem unitsOf_append (cs own : List Char) : unitsOf (cs ++ own) = unitsOf cs ++ unitsOf own :=
  List.flatMap_append

theorem unitsOf_cons (c : Char) (cs : List Char) :
    unitsOf (c :: cs) = codeUnits c.toNat ++ unitsOf cs := rfl

theorem unitsOf_singleton (c : Char) : unitsOf [c] = codeUnits c.toNat := List.append_nil _

/-- What a reader takes in pays for what it reads. -/
theorem readFrom_affords (h : readFrom state cs = some (read, rest)) :
    ∃ own, cs = own ++ rest ∧ own.count '\\' + cost read + 2 ≤
      2 * (unitsOf own).length + credit (some state) := by
  induction cs generalizing state read with
  | nil => cases h
  | cons c cs ih =>
    rw [readFrom] at h
    split at h
    · cases h
    · rename_i first stepped
      cases h
      refine ⟨[c], rfl, ?_⟩
      have paid : Affords state c read none := step_affords stepped
      rw [unitsOf_singleton]
      exact paid
    · rename_i first next stepped
      obtain ⟨⟨later, behind⟩, inside, same⟩ := Option.map_eq_some_iff.mp h
      cases same
      obtain ⟨own, whole, paid⟩ := ih inside
      have now := step_affords stepped
      refine ⟨[c] ++ own, congrArg (c :: ·) whole, ?_⟩
      have count : ([c] ++ own).count '\\' = [c].count '\\' + own.count '\\' :=
        List.count_append
      show _ + cost (first ++ later) + 2 ≤ _
      rw [count, cost_append, unitsOf_append, List.length_append, unitsOf_singleton]
      unfold Affords at now
      omega

variable {escaped : Char → Bool}

def markChar (escaped : Char → Bool) (c : Char) : List Char :=
  if escaped c then ['\\', c] else [c]

def marked (escaped : Char → Bool) (cs : List Char) : List Char := cs.flatMap (markChar escaped)

def isSpecial (c : Char) : Bool := c == '\'' || c == '\\'

theorem isSpecial_iff : isSpecial c = true ↔ c = '\'' ∨ c = '\\' := by
  unfold isSpecial
  rw [Bool.or_eq_true, beq_iff_eq, beq_iff_eq]

theorem marked_cons (c : Char) (cs : List Char) :
    marked escaped (c :: cs) = markChar escaped c ++ marked escaped cs := rfl

theorem count_marked (cs : List Char) :
    (marked escaped cs).count '\\' = cs.count '\\' + cs.countP escaped := by
  induction cs with
  | nil => rfl
  | cons c cs ih =>
    rw [marked_cons, List.count_append, ih, List.count_cons, List.countP_cons]
    unfold markChar
    split <;> simp [List.count_cons, *] <;> omega

theorem length_marked (cs : List Char) :
    (unitsOf (marked escaped cs)).length = (unitsOf cs).length + cs.countP escaped := by
  induction cs with
  | nil => rfl
  | cons c cs ih =>
    rw [marked_cons, unitsOf_append, List.length_append, ih, unitsOf_cons, List.length_append,
      List.countP_cons]
    unfold markChar
    split <;> simp [unitsOf, codeUnits, *] <;> omega

theorem count_unitsOf (cs : List Char) : (unitsOf cs).count 39 = cs.count '\'' := by
  induction cs with
  | nil => rfl
  | cons c cs ih =>
    have same : c.toNat = 39 ↔ c = '\'' := Char.toNat_inj (d := '\'')
    rw [unitsOf_cons, List.count_append, ih, count_codeUnits, List.count_cons, Nat.add_comm]
    simp only [same, beq_iff_eq]

theorem countP_special (cs : List Char) :
    cs.countP isSpecial = cs.count '\\' + cs.count '\'' := by
  induction cs with
  | nil => rfl
  | cons c cs ih =>
    rw [List.countP_cons, List.count_cons, List.count_cons, ih]
    by_cases quote : c = '\''
    · subst quote
      simp [isSpecial]
      omega
    · by_cases backslash : c = '\\'
      · subst backslash
        simp [isSpecial]
        omega
      · simp [isSpecial, quote, backslash]

theorem marked_of_read (only : ∀ c, escaped c = true → isSpecial c = true)
    (h : readFrom .text (marked escaped cs ++ '\'' :: rest) = some (unitsOf cs, rest)) :
    ∀ c ∈ cs, isSpecial c = true → escaped c = true := by
  obtain ⟨own, whole, paid⟩ := readFrom_affords h
  have same : marked escaped cs ++ ['\''] ++ rest = own ++ rest := by
    rw [← whole, List.append_assoc]
    rfl
  have written : own = marked escaped cs ++ ['\''] := (List.append_cancel_right same).symm
  have closing : (['\''].count '\\', (unitsOf ['\'']).length) = (0, 1) := rfl
  obtain ⟨unmarked, one⟩ := Prod.mk.inj closing
  rw [written, List.count_append, count_marked, unitsOf_append, List.length_append, length_marked,
    unmarked, one, cost, count_unitsOf] at paid
  have fewer : cs.countP isSpecial ≤ cs.countP escaped := by
    rw [countP_special]
    simp only [credit] at paid
    omega
  have inside : (cs.filter isSpecial).countP escaped = cs.countP escaped := by
    rw [List.countP_filter]
    refine List.countP_congr fun c _ => ?_
    rw [Bool.and_eq_true]
    exact ⟨And.left, fun marked => ⟨marked, only c marked⟩⟩
  have all : (cs.filter isSpecial).countP escaped = (cs.filter isSpecial).length := by
    refine Nat.le_antisymm List.countP_le_length ?_
    rw [inside, ← List.countP_eq_length_filter]
    exact fewer
  intro c listed special
  exact List.countP_eq_length.mp all c (List.mem_filter.mpr ⟨listed, special⟩)

theorem readFrom_step {next : Reading} (h : step state c = some (read, some next))
    (tail : List Char) :
    readFrom state (c :: tail) = (readFrom next tail).map fun r => (read ++ r.1, r.2) := by
  rw [readFrom, h]

theorem step_text (plain : ¬isSpecial c = true) (unbroken : ¬(c = '\n' ∨ c = '\r')) :
    step .text c = some (codeUnits c.toNat, some .text) := by
  rw [isSpecial_iff, not_or] at plain
  simp only [step, stepText, if_neg plain.1, if_neg plain.2, if_neg unbroken]

theorem readFrom_markChar (only : escaped c = true → isSpecial c = true)
    (all : isSpecial c = true → escaped c = true) (unbroken : ¬(c = '\n' ∨ c = '\r'))
    (tail : List Char) :
    readFrom .text (markChar escaped c ++ tail) =
      (readFrom .text tail).map fun r => (codeUnits c.toNat ++ r.1, r.2) := by
  unfold markChar
  split
  · rename_i marked
    have opened : step .text '\\' = some ([], some .escape) := rfl
    have itself : step .escape c = some (codeUnits c.toNat, some .text) := by
      rcases isSpecial_iff.mp (only marked) with rfl | rfl <;> rfl
    show readFrom .text ('\\' :: c :: tail) = _
    rw [readFrom_step opened, readFrom_step itself, Option.map_map]
    rfl
  · rename_i unmarked
    exact readFrom_step (step_text (fun special => unmarked (all special)) unbroken) tail

theorem readFrom_break (broken : c = '\n' ∨ c = '\r') (tail : List Char) :
    readFrom .text (c :: tail) = none := by
  rcases broken with rfl | rfl <;> rfl

theorem readFrom_marked (only : ∀ c, escaped c = true → isSpecial c = true)
    (all : ∀ c ∈ cs, isSpecial c = true → escaped c = true) :
    readFrom .text (marked escaped cs ++ '\'' :: rest) = some (unitsOf cs, rest) ↔
      ∀ c ∈ cs, ¬(c = '\n' ∨ c = '\r') := by
  induction cs with
  | nil => simp [marked, unitsOf, readFrom, step, stepText]
  | cons c cs ih =>
    obtain ⟨first, later⟩ := List.forall_mem_cons.mp all
    rw [List.forall_mem_cons, ← ih later, marked_cons, List.append_assoc]
    by_cases broken : c = '\n' ∨ c = '\r'
    · have unmarked : escaped c = false := by
        refine Bool.eq_false_iff.mpr fun marked => ?_
        have special := isSpecial_iff.mp (only c marked)
        rcases broken with rfl | rfl <;> exact absurd special (by decide)
      have written : markChar escaped c = [c] := by simp [markChar, unmarked]
      rw [written, List.singleton_append, readFrom_break broken]
      simp [broken]
    · rw [readFrom_markChar (only c) first broken, unitsOf_cons]
      cases readFrom .text (marked escaped cs ++ '\'' :: rest) with
      | none => simp
      | some r =>
        obtain ⟨read, behind⟩ := r
        simp [broken]

theorem readFrom_marked_iff (only : ∀ c, escaped c = true → isSpecial c = true) :
    readFrom .text (marked escaped cs ++ '\'' :: rest) = some (unitsOf cs, rest) ↔
      ∀ c ∈ cs, ¬(c = '\n' ∨ c = '\r') ∧ (isSpecial c = true → escaped c = true) := by
  constructor
  · intro h
    have all := marked_of_read only h
    exact fun c listed => ⟨(readFrom_marked only all).mp h c listed, all c listed⟩
  · intro h
    exact (readFrom_marked only fun c listed => (h c listed).2).mpr fun c listed => (h c listed).1

end Literal

/-- The literal ends where its text does and has this value, when `rest` comes after it. -/
def Denotes (literal value : String) (rest : List Char) : Prop :=
  Literal.read? (literal.toList ++ rest) = some (units value, rest)

/-- The quoters leave out no character but those that are not escaped and have to be. -/
theorem denotes_iff (escaped : Char → Bool) {literal value : String} {rest : List Char}
    (only : ∀ c, escaped c = true → Literal.isSpecial c = true)
    (written : literal.toList = '\'' :: Literal.marked escaped value.toList ++ ['\'']) :
    Denotes literal value rest ↔ ∀ c ∈ value.toList,
      ¬(c = '\n' ∨ c = '\r') ∧ (Literal.isSpecial c = true → escaped c = true) := by
  rw [← Literal.readFrom_marked_iff only, Denotes, written, List.append_assoc,
    List.singleton_append]
  exact Iff.rfl

theorem escapeQuotesChars_eq (cs : List Char) :
    escapeQuotesChars cs = Literal.marked (· == '\'') cs := by
  induction cs with
  | nil => rfl
  | cons c cs ih =>
    have same : c.toNat = 39 ↔ c = '\'' := Char.toNat_inj (d := '\'')
    rw [escapeQuotesChars, Literal.marked_cons, Literal.markChar, ih]
    simp only [same, beq_iff_eq]
    split <;> rfl

theorem escapedChars_eq (cs : List Char) :
    escapeQuotesChars (Text.replaceFrom ['\\'] ['\\', '\\'] 0 cs) =
      Literal.marked Literal.isSpecial cs := by
  rw [escapeQuotesChars_eq, Text.replaceFrom_single, Literal.marked, Literal.marked,
    List.flatMap_assoc]
  apply List.flatMap_congr
  intro c _
  by_cases backslash : c = '\\'
  · subst backslash
    rfl
  · simp [Literal.markChar, Literal.isSpecial, backslash]

theorem singleQuoted_denotes {value : String} {rest : List Char} :
    Denotes (singleQuoted value) value rest ↔ ∀ c ∈ value.toList, c ∉ ['\n', '\r', '\\'] := by
  rw [denotes_iff (· == '\'')]
  · refine forall₂_congr fun c _ => ?_
    rw [Literal.isSpecial_iff]
    by_cases quote : c = '\''
    · subst quote
      decide
    · simp [quote, and_assoc]
  · exact fun c quote => Literal.isSpecial_iff.mpr (.inl (by simpa using quote))
  · simp [singleQuoted, escapeQuotes, escapeQuotesChars_eq]

example : Literal.read? (singleQuoted "\\u00e9").toList = some (units "é", []) := by decide

theorem quoted_denotes {value : String} {rest : List Char} :
    Denotes ("'" ++ value ++ "'") value rest ↔
      ∀ c ∈ value.toList, c ∉ ['\n', '\r', '\'', '\\'] := by
  rw [denotes_iff fun _ => false]
  · refine forall₂_congr fun c _ => ?_
    rw [Literal.isSpecial_iff]
    simp [and_assoc]
  · exact nofun
  · have written : ∀ cs, Literal.marked (fun _ => false) cs = cs := by
      intro cs
      induction cs with
      | nil => rfl
      | cons c cs ih =>
        rw [Literal.marked_cons, ih]
        rfl
    simp [written]

theorem literal_denotes {value : String} {rest : List Char} :
    Denotes (literal value) value rest ↔ ∀ c ∈ value.toList, c ∉ ['\n', '\r'] := by
  rw [denotes_iff Literal.isSpecial]
  · refine forall₂_congr fun c _ => ?_
    simp
  · exact fun c special => special
  · simp [literal, singleQuoted, escapeQuotes, Text.replace, escapedChars_eq]

end TypedClients.TypeScript

namespace TypedClients.Client

open TypeScript (Denotes propertyKey enumLiteral isIdentifier)

/-- Keys and members of enumerations are read back just when neither a backslash nor a line break
stands in them, and the names of repeated parameters just when no quote does either. -/
theorem literals_denote (text : String) (e : Endpoint) (target : Target) :
    (isIdentifier text = false → ∀ rest, Denotes (propertyKey text) text rest ↔
      ∀ c ∈ text.toList, c ∉ ['\n', '\r', '\\']) ∧
    (∀ rest, Denotes (enumLiteral (.text text)) text rest ↔
      ∀ c ∈ text.toList, c ∉ ['\n', '\r', '\\']) ∧
    ∃ literals,
      (Request.ofEndpoint e target).explodeList =
        (if literals = [] then none else some (Text.join ", " literals)) ∧
      List.Forall₂ (fun p literal => ∀ rest, Denotes literal p.wire rest ↔
          ∀ c ∈ p.wire.toList, c ∉ ['\n', '\r', '\'', '\\'])
        (e.queryParams.filter (·.explode)) literals := by
  refine ⟨?_, fun _ => TypeScript.singleQuoted_denotes, ?_⟩
  · intro quoted rest
    rw [propertyKey, quoted]
    exact TypeScript.singleQuoted_denotes
  · refine ⟨(e.queryParams.filter (·.explode)).map fun p => "'" ++ p.wire ++ "'", ?_, ?_⟩
    · simp [Request.ofEndpoint]
    · rw [List.forall₂_map_right_iff]
      exact List.forall₂_same.mpr fun p _ rest => TypeScript.quoted_denotes

def tagFilter : Param :=
  ⟨⟨"tags[]", "Tags", "tags"⟩, "tags[]", .array .string, none, false, none, false, true⟩

def listPets : Endpoint :=
  { name := ⟨"listPets", "ListPets", "listPets"⟩
    operationId := some "listPets"
    verb := .get
    route := "/pets"
    summary := none
    description := none
    tags := []
    deprecated := false
    arguments := []
    pathParams := []
    queryParams := [tagFilter]
    headers := []
    body := none
    response := {}
    mutator := none }

theorem literals_denote_listPets : isIdentifier "it's" = false ∧
    Denotes (propertyKey "it's") "it's" [] ∧ Denotes (enumLiteral (.text "it's")) "it's" [] ∧
    ∃ literal, (Request.ofEndpoint listPets {}).explodeList = some literal ∧
      Denotes literal "tags[]" [] := by
  have quoted : isIdentifier "it's" = false := by decide
  have plain : ∀ c ∈ "it's".toList, c ∉ ['\n', '\r', '\\'] := by simp
  have unquoted : ∀ c ∈ "tags[]".toList, c ∉ ['\n', '\r', '\'', '\\'] := by simp
  obtain ⟨key, member, literals, exploded, names⟩ := literals_denote "it's" listPets {}
  refine ⟨quoted, (key quoted []).mpr plain, (member []).mpr plain, ?_⟩
  have one : listPets.queryParams.filter (·.explode) = [tagFilter] := rfl
  rw [one] at names
  cases names with
  | cons denotes none =>
    cases none
    exact ⟨_, exploded, (denotes []).mpr unquoted⟩

end TypedClients.Client
