import TypedClients.Decimal.Layout
import TypedClients.Proofs.Lines
import TypedClients.Proofs.Specifiers
import TypedClients.Zod.Release

namespace TypedClients

namespace Text

theorem fields_mark {c : Char} (mark : isBlank c = true) (left right : List Char) :
    fields (String.ofList (left ++ c :: right)) =
      fields (String.ofList left) ++ fields (String.ofList right) := by
  unfold fields parts
  rw [String.toList_ofList, String.toList_ofList, String.toList_ofList,
    partsFrom_append_mark mark, List.map_append, List.filter_append]

theorem fields_blank {lead : List Char} (blank : ∀ c ∈ lead, isBlank c = true) (cs : List Char) :
    fields (String.ofList (lead ++ cs)) = fields (String.ofList cs) := by
  induction lead with
  | nil => rfl
  | cons c rest ih =>
    have first := fields_mark (blank c List.mem_cons_self) [] (rest ++ cs)
    exact first.trans (ih fun d mem => blank d (List.mem_cons_of_mem _ mem))

theorem fields_append_blank {tail : List Char} (blank : ∀ c ∈ tail, isBlank c = true)
    (cs : List Char) : fields (String.ofList (cs ++ tail)) = fields (String.ofList cs) := by
  cases tail with
  | nil => rw [List.append_nil]
  | cons c rest =>
    have none := fields_blank (fun d mem => blank d (List.mem_cons_of_mem _ mem)) []
    rw [List.append_nil] at none
    rw [fields_mark (blank c List.mem_cons_self), none]
    exact List.append_nil _

theorem fields_word {word tail : List Char} (nonempty : word ≠ [])
    (solid : ∀ c ∈ word, isBlank c = false) (stops : ∀ c ∈ tail.head?, isBlank c = true) :
    fields (String.ofList (word ++ tail)) =
      String.ofList word :: fields (String.ofList tail) := by
  have own : fields (String.ofList word) = [String.ofList word] := by
    simp [fields, parts, partsFrom_of_none solid, nonempty]
  cases tail with
  | nil =>
    rw [List.append_nil, own]
    rfl
  | cons c rest =>
    have mark : isBlank c = true := stops c rfl
    have next := fields_mark mark [] rest
    rw [List.nil_append] at next
    rw [fields_mark mark, own, next]
    rfl

theorem fields_trimStart (cs : List Char) :
    fields (String.ofList (trimStart isBlank cs)) = fields (String.ofList cs) := by
  have whole : cs.takeWhile isBlank ++ trimStart isBlank cs = cs := List.takeWhile_append_dropWhile
  have blank : ∀ c ∈ cs.takeWhile isBlank, isBlank c = true := fun c mem =>
    List.mem_takeWhile_imp mem
  have same := fields_blank blank (trimStart isBlank cs)
  rw [whole] at same
  exact same.symm

theorem fields_trimEnd (cs : List Char) :
    fields (String.ofList (trimEnd isBlank cs)) = fields (String.ofList cs) := by
  have whole : trimEnd isBlank cs ++ cs.rtakeWhile isBlank = cs := List.rdropWhile_append_rtakeWhile
  have blank : ∀ c ∈ cs.rtakeWhile isBlank, isBlank c = true := fun c mem =>
    List.mem_rtakeWhile_imp mem
  have same := fields_append_blank blank (trimEnd isBlank cs)
  rw [whole] at same
  exact same.symm

/-- The mark ends a text in which its first character does not occur. -/
theorem upToChars_append {c : Char} {mark cs tail : List Char} (clean : c ∉ cs)
    (ends : tail = [] ∨ c :: mark <+: tail) : upToChars (c :: mark) (cs ++ tail) = cs := by
  induction cs with
  | nil =>
    rcases ends with rfl | found
    · rfl
    · obtain ⟨d, rest, rfl⟩ : ∃ d rest, tail = d :: rest := by
        obtain ⟨rest, rfl⟩ := found
        exact ⟨c, mark ++ rest, rfl⟩
      rw [List.nil_append, upToChars, if_pos (List.isPrefixOf_iff_prefix.mpr found)]
  | cons d rest ih =>
    have other : ¬ c = d := fun same => clean (by rw [same]; exact List.mem_cons_self)
    have later := ih fun mem => clean (List.mem_cons_of_mem _ mem)
    rw [List.cons_append, upToChars, later]
    simp [List.isPrefixOf, other]

theorem fields_upTo_bars {cs tail : List Char} (clean : '|' ∉ cs)
    (ends : tail = [] ∨ ['|', '|'] <+: tail) :
    fields (String.ofList (upToChars "||".toList (trimEnd isBlank (cs ++ tail)))) =
      fields (String.ofList cs) := by
  have bars : "||".toList = ['|', '|'] := by decide
  rw [bars]
  rcases ends with rfl | ⟨rest, rfl⟩
  · have kept : '|' ∉ trimEnd isBlank cs := fun mem => clean ((prefix_trimEnd _ _).mem mem)
    have cut : upToChars ['|', '|'] (trimEnd isBlank cs ++ []) = trimEnd isBlank cs :=
      upToChars_append kept (.inl rfl)
    rw [List.append_nil] at cut
    rw [List.append_nil, cut, fields_trimEnd]
  · have kept : trimEnd isBlank (cs ++ ['|', '|'] ++ rest) =
        cs ++ ['|', '|'] ++ trimEnd isBlank rest := by
      apply trimEnd_append
      intro d mem
      rw [List.getLast?_append_cons] at mem
      cases mem
      decide
    rw [← List.append_assoc, kept, List.append_assoc, upToChars_append clean (.inr ⟨_, rfl⟩)]

theorem hasLead_of_head {lead s : String} {c : Char} (start : lead.toList.head? = some c)
    (other : c ∉ s.toList.head?) : hasLead lead s = false := by
  rw [Bool.eq_false_iff]
  intro found
  have order : lead.toList <+: s.toList := List.isPrefixOf_iff_prefix.mp found
  obtain ⟨rest, chars⟩ := List.head?_eq_some_iff.mp start
  obtain ⟨more, whole⟩ := order
  apply other
  rw [← whole, chars]
  rfl

end Text

namespace Zod

structure Release where
  major : Nat
  minor : Nat
  patch : Nat
deriving DecidableEq, Repr

namespace Release

def AtMost (r s : Release) : Prop :=
  r.major < s.major ∨ r.major = s.major ∧
    (r.minor < s.minor ∨ r.minor = s.minor ∧ r.patch ≤ s.patch)

instance : LE Release := ⟨AtMost⟩

instance : LT Release := ⟨fun r s => ¬ s ≤ r⟩

theorem le_iff {r s : Release} : r ≤ s ↔ r.major < s.major ∨ r.major = s.major ∧
    (r.minor < s.minor ∨ r.minor = s.minor ∧ r.patch ≤ s.patch) := Iff.rfl

theorem lt_iff {r s : Release} : r < s ↔ ¬ s ≤ r := Iff.rfl

instance (r s : Release) : Decidable (r ≤ s) := decidable_of_iff _ le_iff.symm

instance (r s : Release) : Decidable (r < s) := decidable_of_iff _ lt_iff.symm

theorem trans {r s t : Release} (first : r ≤ s) (second : s ≤ t) : r ≤ t := by
  rw [le_iff] at *
  omega

end Release

inductive Operator where
  | none
  | equal
  | caret
  | tilde
  | atLeast
  | above
  | below
  | atMost
deriving DecidableEq, Repr

def Operator.text : Operator → List Char
  | .none => []
  | .equal => ['=']
  | .caret => ['^']
  | .tilde => ['~']
  | .atLeast => ['>', '=']
  | .above => ['>']
  | .below => ['<']
  | .atMost => ['<', '=']

def Operator.isUpper : Operator → Bool
  | .below => true
  | .atMost => true
  | _ => false

/-- Up to three numbers; those that are left out may be written as wildcards. -/
structure Version where
  numbers : List Nat
  wildcards : List Char := []
  some_number : numbers ≠ [] := by decide
  short : numbers.length + wildcards.length ≤ 3 := by decide
  bounded : ∀ n ∈ numbers, n < Nat.pow 2 64 := by decide
  wild : ∀ w ∈ wildcards, w ∈ ['x', 'X', '*'] := by simp

namespace Version

def parts (v : Version) : List String :=
  v.numbers.map Decimal.digitText ++ v.wildcards.map String.singleton

def text (v : Version) : String := Text.join "." v.parts

def floor (v : Version) : Release := ⟨v.numbers.getD 0 0, v.numbers.getD 1 0, v.numbers.getD 2 0⟩

def next (v : Version) : Release :=
  match v.numbers with
  | [] => ⟨0, 0, 0⟩
  | [a] => ⟨a + 1, 0, 0⟩
  | [a, b] => ⟨a, b + 1, 0⟩
  | a :: b :: c :: _ => ⟨a, b, c + 1⟩

/-- The first release behind those with the same minor number, or major number if there is no
other. -/
def nextMinor (v : Version) : Release :=
  match v.numbers with
  | [] => ⟨0, 0, 0⟩
  | [a] => ⟨a + 1, 0, 0⟩
  | a :: b :: _ => ⟨a, b + 1, 0⟩

/-- The first release behind those with the same leading number, where zeros do not lead. -/
def nextLeading (v : Version) : Release :=
  match v.numbers with
  | [] => ⟨0, 0, 0⟩
  | [a] => ⟨a + 1, 0, 0⟩
  | [a, b] => if a = 0 then ⟨0, b + 1, 0⟩ else ⟨a + 1, 0, 0⟩
  | a :: b :: c :: _ =>
    if a = 0 then if b = 0 then ⟨0, 0, c + 1⟩ else ⟨0, b + 1, 0⟩ else ⟨a + 1, 0, 0⟩

end Version

/-- The releases that a dependency may be resolved to. -/
def Operator.Admits (o : Operator) (v : Version) (r : Release) : Prop :=
  match o with
  | .none => v.floor ≤ r ∧ r < v.next
  | .equal => v.floor ≤ r ∧ r < v.next
  | .caret => v.floor ≤ r ∧ r < v.nextLeading
  | .tilde => v.floor ≤ r ∧ r < v.nextMinor
  | .atLeast => v.floor ≤ r
  | .above => v.next ≤ r
  | .below => r < v.floor
  | .atMost => r < v.next

structure Comparator where
  operator : Operator
  gap : List Char := []
  version : Version
  blank : ∀ c ∈ gap, Text.isBlank c = true := by simp
  joined : operator = .none → gap = [] := by decide

namespace Comparator

def text (c : Comparator) : List Char := c.operator.text ++ c.gap ++ c.version.text.toList

def Admits (c : Comparator) (r : Release) : Prop := c.operator.Admits c.version r

end Comparator

theorem Version.floor_le_next (v : Version) : v.floor ≤ v.next := by
  unfold floor next
  rw [Release.le_iff]
  match v.numbers, v.some_number with
  | [a], _ => simp
  | [a, b], _ => simp
  | a :: b :: c :: rest, _ => simp

theorem Comparator.Admits.floor_le {c : Comparator} {r : Release} (h : c.Admits r)
    (lower : c.operator.isUpper = false) : c.version.floor ≤ r := by
  obtain ⟨operator, gap, version, _, _⟩ := c
  cases operator with
  | none => exact h.1
  | equal => exact h.1
  | caret => exact h.1
  | tilde => exact h.1
  | atLeast => exact h
  | above => exact Release.trans version.floor_le_next h
  | below => cases lower
  | atMost => cases lower

theorem digitText_ne_nil (n : Nat) : (Decimal.digitText n).toList ≠ [] := by
  rw [Decimal.digitText, String.toList_ofList]
  exact Nat.toDigits_ne_nil

theorem releasePart?_digitText {n : Nat} (h : n < Nat.pow 2 64) :
    releasePart? (Decimal.digitText n) = some n := by
  have all : ∀ c ∈ (Decimal.digitText n).toList, c.isDigit = true := fun _ mem =>
    Decimal.isDigit_of_mem_digitText mem
  have value : (Decimal.digitText n).toList.foldl (fun acc c => acc * 10 + (c.toNat - 48)) 0 = n := by
    rw [Decimal.digitText, String.toList_ofList]
    refine Eq.trans ?_ (Nat.ofDigitChars_toDigits (b := 10) (by decide) (by decide))
    unfold Nat.ofDigitChars
    simp only [Nat.mul_comm 10]
    rfl
  have some_digit : (Decimal.digitText n).toList.isEmpty = false :=
    List.isEmpty_eq_false_iff.mpr (digitText_ne_nil n)
  have small : ¬ Nat.pow 2 64 ≤ n := Nat.not_le.mpr h
  unfold releasePart?
  dsimp only
  rw [List.takeWhile_eq_self_iff.mpr all, value, some_digit, decide_eq_false small, Bool.or_self,
    if_neg Bool.false_ne_true]

theorem releasePart?_wild {w : Char} (h : w ∈ ['x', 'X', '*']) :
    releasePart? (String.singleton w) = none := by
  simp only [List.mem_cons, List.not_mem_nil, or_false] at h
  rcases h with rfl | rfl | rfl <;> decide

namespace Version

variable {v : Version}

theorem mem_text {c : Char} (h : c ∈ v.text.toList) :
    c.isDigit = true ∨ c ∈ ['.', 'x', 'X', '*'] := by
  rcases Text.mem_join h with point | ⟨part, mem, inside⟩
  · cases List.mem_singleton.mp point
    decide
  · rcases List.mem_append.mp mem with number | wild
    · obtain ⟨n, _, rfl⟩ := List.mem_map.mp number
      exact .inl (Decimal.isDigit_of_mem_digitText inside)
    · obtain ⟨w, listed, rfl⟩ := List.mem_map.mp wild
      rw [String.toList_singleton, List.mem_singleton] at inside
      subst inside
      exact .inr (List.mem_cons_of_mem _ (v.wild _ listed))

theorem text_solid {c : Char} (h : c ∈ v.text.toList) : Text.isBlank c = false ∧ c ≠ '|' := by
  rcases mem_text h with digit | mark
  · exact ⟨Text.isBlank_of_isDigit digit, Text.ne_of_isDigit digit (by decide)⟩
  · simp only [List.mem_cons, List.not_mem_nil, or_false] at mark
    rcases mark with rfl | rfl | rfl | rfl <;> decide

theorem text_head (v : Version) : ∃ c rest, v.text.toList = c :: rest ∧ c.isDigit = true := by
  obtain ⟨first, more, numbers⟩ := List.exists_cons_of_ne_nil v.some_number
  obtain ⟨c, rest, chars⟩ := List.exists_cons_of_ne_nil (digitText_ne_nil first)
  have digit : c.isDigit = true :=
    Decimal.isDigit_of_mem_digitText (n := first) (by rw [chars]; exact List.mem_cons_self)
  unfold text parts
  rw [numbers, List.map_cons, List.cons_append]
  by_cases none : more.map Decimal.digitText ++ v.wildcards.map String.singleton = []
  · rw [none, Text.join_singleton]
    exact ⟨c, rest, chars, digit⟩
  · rw [Text.join_cons _ _ none, String.toList_append, String.toList_append, chars]
    exact ⟨c, _, rfl, digit⟩

theorem splitAt_text (v : Version) : Text.splitAt '.' v.text = v.parts := by
  apply Text.splitAt_join
  · unfold parts
    rw [ne_eq, List.append_eq_nil_iff, List.map_eq_nil_iff]
    exact fun none => v.some_number none.1
  · intro part mem point
    rcases List.mem_append.mp mem with number | wild
    · obtain ⟨n, _, rfl⟩ := List.mem_map.mp number
      cases Decimal.isDigit_of_mem_digitText point
    · obtain ⟨w, listed, rfl⟩ := List.mem_map.mp wild
      rw [String.toList_singleton, List.mem_singleton] at point
      subst point
      exact absurd (v.wild _ listed) (by decide)

theorem releaseParts_eq (v : Version) :
    v.parts.map releasePart? = v.numbers.map some ++ v.wildcards.map fun _ => none := by
  unfold parts
  rw [List.map_append, List.map_map, List.map_map]
  congr 1
  · apply List.map_congr_left
    intro n mem
    exact releasePart?_digitText (v.bounded n mem)
  · apply List.map_congr_left
    intro w mem
    exact releasePart?_wild (v.wild w mem)

theorem releasePart_eq (v : Version) (i : Nat) :
    ((v.parts.map releasePart?)[i]?.getD none).getD 0 = v.numbers.getD i 0 := by
  rw [releaseParts_eq, List.getElem?_append, List.length_map, List.getElem?_map,
    List.getElem?_map, List.getD_eq_getElem?_getD]
  split
  · cases v.numbers[i]? <;> rfl
  · rename_i behind
    rw [List.getElem?_eq_none (Nat.le_of_not_lt behind)]
    cases v.wildcards[i - v.numbers.length]? <;> rfl

end Version

def Floor.ofRelease (r : Release) : Floor := .release r.major r.minor r.patch

theorem comparatorFloor_text {operators : List Char} (h : ∀ c ∈ operators, isComparator c = true)
    (v : Version) : comparatorFloor (String.ofList (operators ++ v.text.toList)) =
      .ofRelease v.floor := by
  obtain ⟨c, rest, chars, digit⟩ := v.text_head
  have start : Text.trimStart isComparator v.text.toList = v.text.toList := by
    apply Text.trimStart_of_head
    intro d mem
    rw [chars, List.head?_cons, Option.mem_some] at mem
    subst mem
    unfold isComparator
    simp [Text.ne_of_isDigit digit]
  have trimmed : Text.trimStart isComparator (operators ++ v.text.toList) = v.text.toList :=
    (List.dropWhile_append_of_pos h).trans start
  have bare : Text.afterLead? "v" v.text = none := by
    unfold Text.afterLead? Text.hasLead
    rw [chars]
    simp [(Text.ne_of_isDigit digit (d := 'v') (by decide)).symm]
  have leading : (v.parts.map releasePart?).head?.getD none = some (v.numbers.getD 0 0) := by
    rw [v.releaseParts_eq]
    match v.numbers, v.some_number with
    | first :: more, _ => rfl
  unfold comparatorFloor
  dsimp only
  rw [String.toList_ofList, trimmed, String.ofList_toList, bare, Option.getD_none,
    v.splitAt_text, v.releasePart_eq, v.releasePart_eq, leading]
  rfl

theorem floorOfComparators_digit {cs : List Char} {c : Char} (mem : c ∈ cs)
    (digit : c.isDigit = true) (rest : List String) :
    floorOfComparators (String.ofList cs :: rest) =
      if Text.hasLead "<" (String.ofList cs) then floorOfComparators rest
      else comparatorFloor (String.ofList cs) := by
  have plain : ∀ name ∈ ["*", "latest", "^", "~"], name.toList.any Char.isDigit = false := by
    decide
  have other : String.ofList cs ∉ ["*", "latest", "^", "~"] := by
    intro listed
    have none := plain _ listed
    rw [String.toList_ofList, List.any_eq_true.mpr ⟨c, mem, digit⟩] at none
    cases none
  rw [floorOfComparators, if_neg (by simpa using other)]

/-- An operator without a gap tells whether its version is read. -/
theorem floorOfComparators_version (o : Operator) (v : Version) (rest : List String) :
    floorOfComparators (String.ofList (o.text ++ v.text.toList) :: rest) =
      if o.isUpper then floorOfComparators rest else .ofRelease v.floor := by
  obtain ⟨first, more, chars, digit⟩ := v.text_head
  have number : first ∈ o.text ++ v.text.toList := by
    rw [chars]
    exact List.mem_append_right _ List.mem_cons_self
  have lead : Text.hasLead "<" (String.ofList (o.text ++ v.text.toList)) = o.isUpper := by
    have other : '<' ≠ first := (Text.ne_of_isDigit digit (by decide)).symm
    unfold Text.hasLead
    rw [chars]
    cases o <;> simp [Operator.text, Operator.isUpper, List.isPrefixOf, other]
  rw [floorOfComparators_digit number digit, lead]
  split
  · rfl
  · rename_i lower
    apply comparatorFloor_text
    apply List.all_eq_true.mp
    cases o <;> first | rfl | exact absurd rfl lower

namespace Comparator

variable {c : Comparator} {cs : List Comparator}

def fields (c : Comparator) : List String :=
  if c.gap = [] then [String.ofList (c.operator.text ++ c.version.text.toList)]
  else [String.ofList c.operator.text, c.version.text]

theorem flatMap_ne_nil (nonempty : cs ≠ []) : cs.flatMap fields ≠ [] := by
  obtain ⟨c, rest, rfl⟩ := List.exists_cons_of_ne_nil nonempty
  rw [List.flatMap_cons]
  unfold fields
  split <;> exact List.cons_ne_nil _ _

def IsPassedOver (c : Comparator) : Prop := c.operator.isUpper = true ∧ c.gap = []

instance (c : Comparator) : Decidable c.IsPassedOver := inferInstanceAs (Decidable (_ ∧ _))

def floor (c : Comparator) : Floor :=
  if c.gap = [] ∨ c.operator.isUpper = true then .ofRelease c.version.floor else .any

def decisive? (cs : List Comparator) : Option Comparator := cs.find? (¬ ·.IsPassedOver)

theorem operator_solid {o : Operator} : ∀ x ∈ o.text,
    Text.isBlank x = false ∧ x ≠ '|' ∧ x ≠ 'c' ∧ x ≠ 'w' := by
  have all : o.text.all (fun x => !Text.isBlank x && x != '|' && x != 'c' && x != 'w') = true := by
    cases o <;> rfl
  simpa [and_assoc] using all

theorem operator_ne_nil (apart : c.gap ≠ []) : c.operator.text ≠ [] := by
  have other : c.operator ≠ .none := fun same => apart (c.joined same)
  cases named : c.operator with
  | none => exact absurd named other
  | _ => exact List.cons_ne_nil _ _

theorem text_head (c : Comparator) : ∃ x rest, c.text = x :: rest ∧
    Text.isBlank x = false ∧ x ≠ 'c' ∧ x ≠ 'w' := by
  unfold text
  cases named : c.operator.text with
  | nil =>
    obtain ⟨x, rest, chars, digit⟩ := c.version.text_head
    have joined : c.gap = [] := by
      by_contra apart
      exact operator_ne_nil apart named
    rw [joined, chars]
    exact ⟨x, rest, rfl, Text.isBlank_of_isDigit digit, Text.ne_of_isDigit digit (by decide),
      Text.ne_of_isDigit digit (by decide)⟩
  | cons x rest =>
    have solid := operator_solid x (by rw [named]; exact List.mem_cons_self)
    exact ⟨x, _, rfl, solid.1, solid.2.2⟩

theorem fields_text {tail : List Char} (stops : ∀ x ∈ tail.head?, Text.isBlank x = true) :
    Text.fields (String.ofList (c.text ++ tail)) =
      c.fields ++ Text.fields (String.ofList tail) := by
  obtain ⟨first, rest, chars, digit⟩ := c.version.text_head
  have version : c.version.text.toList ≠ [] := by
    rw [chars]
    exact List.cons_ne_nil _ _
  have solid : ∀ x ∈ c.version.text.toList, Text.isBlank x = false := fun x mem =>
    (Version.text_solid mem).1
  unfold text fields
  by_cases joined : c.gap = []
  · have nonempty : c.operator.text ++ c.version.text.toList ≠ [] := by simp [version]
    rw [joined, if_pos rfl, List.append_nil, Text.fields_word nonempty ?_ stops]
    · rfl
    · intro x mem
      rcases List.mem_append.mp mem with sign | number
      · exact (operator_solid x sign).1
      · exact solid x number
  · have gap_stops : ∀ x ∈ (c.gap ++ (c.version.text.toList ++ tail)).head?,
        Text.isBlank x = true := by
      obtain ⟨x, more, gap⟩ := List.exists_cons_of_ne_nil joined
      intro y mem
      rw [gap, List.cons_append, List.head?_cons, Option.mem_some] at mem
      subst mem
      exact c.blank x (by rw [gap]; exact List.mem_cons_self)
    rw [if_neg joined, List.append_assoc, List.append_assoc,
      Text.fields_word (operator_ne_nil joined) (fun x mem => (operator_solid x mem).1) gap_stops,
      Text.fields_blank c.blank, Text.fields_word version solid stops, String.ofList_toList]
    rfl

theorem floorOfComparators_fields (c : Comparator) (rest : List String) :
    floorOfComparators (c.fields ++ rest) =
      if c.IsPassedOver then floorOfComparators rest else c.floor := by
  unfold fields IsPassedOver floor
  by_cases joined : c.gap = []
  · have read := floorOfComparators_version c.operator c.version rest
    simp only [joined, if_true, List.singleton_append, read, and_true, true_or]
  · -- The operator becomes a comparator of its own, and the version one without an operator.
    have bare := floorOfComparators_version .none c.version rest
    have sign : floorOfComparators (String.ofList c.operator.text :: c.version.text :: rest) =
        if c.operator.isUpper then floorOfComparators (c.version.text :: rest) else .any := by
      have nonempty := operator_ne_nil joined
      cases named : c.operator with
      | none => exact absurd (by rw [named]; rfl) nonempty
      | _ => rfl
    have text : String.ofList (Operator.none.text ++ c.version.text.toList) = c.version.text :=
      String.ofList_toList
    rw [text] at bare
    by_cases upper : c.operator.isUpper = true
    · simp [joined, sign, bare, Operator.isUpper]
    · simp [joined, sign, upper]

theorem floorOfComparators_flatMap (cs : List Comparator) :
    floorOfComparators (cs.flatMap fields) = (decisive? cs).elim .unbounded floor := by
  induction cs with
  | nil => rfl
  | cons c rest ih =>
    rw [List.flatMap_cons, floorOfComparators_fields, ih]
    unfold decisive?
    by_cases passed : c.IsPassedOver
    · simp [passed]
    · simp [passed]

end Comparator

inductive Written : List Comparator → List Char → Prop where
  | nil {blanks : List Char} (blank : ∀ x ∈ blanks, Text.isBlank x = true) : Written [] blanks
  | cons {lead tail : List Char} {c : Comparator} {cs : List Comparator}
    (blank : ∀ x ∈ lead, Text.isBlank x = true)
    (stops : ∀ x ∈ tail.head?, Text.isBlank x = true) (rest : Written cs tail) :
    Written (c :: cs) (lead ++ (c.text ++ tail))

/-- The range consists of the comparators, or they stand before its first bars. -/
def FirstAlternative (cs : List Comparator) (range : String) : Prop :=
  ∃ first more, range.toList = first ++ more ∧ Written cs first ∧
    (more = [] ∨ ['|', '|'] <+: more)

namespace Written

variable {cs : List Comparator} {first : List Char}

theorem fields_eq (h : Written cs first) :
    Text.fields (String.ofList first) = cs.flatMap Comparator.fields := by
  induction h with
  | nil blank =>
    have none := Text.fields_blank blank []
    rw [List.append_nil] at none
    exact none
  | cons blank stops _ ih =>
    rw [Text.fields_blank blank, Comparator.fields_text stops, ih]
    rfl

theorem no_bar (h : Written cs first) : '|' ∉ first := by
  have other {blanks : List Char} (blank : ∀ x ∈ blanks, Text.isBlank x = true) :
      '|' ∉ blanks := by
    intro mem
    have bar := blank _ mem
    revert bar
    decide
  induction h with
  | nil blank => exact other blank
  | @cons lead tail c cs blank _ _ ih =>
    unfold Comparator.text
    simp only [List.mem_append, not_or]
    refine ⟨other blank, ⟨⟨?_, other c.blank⟩, ?_⟩, ih⟩
    · intro mem
      exact (Comparator.operator_solid _ mem).2.1 rfl
    · intro mem
      exact (Version.text_solid mem).2 rfl

theorem start (h : Written cs first) (nonempty : cs ≠ []) :
    ∃ x rest, Text.trimStart Text.isBlank first = x :: rest ∧ x ≠ 'c' ∧ x ≠ 'w' := by
  cases h with
  | nil _ => exact absurd rfl nonempty
  | @cons lead tail c cs blank _ _ =>
    obtain ⟨x, rest, text, clean⟩ := c.text_head
    refine ⟨x, rest ++ tail, ?_, clean.2⟩
    unfold Text.trimStart
    rw [List.dropWhile_append_of_pos blank, text]
    simp [clean.1]

end Written

/-- The range is read as the first comparator that is not passed over. -/
theorem ofRange_eq {cs : List Comparator} {range : String} (h : FirstAlternative cs range)
    (nonempty : cs ≠ []) :
    Floor.ofRange range = (Comparator.decisive? cs).elim .unbounded Comparator.floor := by
  obtain ⟨first, more, whole, written, ends⟩ := h
  obtain ⟨x, body, start, other, otherwise⟩ := written.start nonempty
  have trimmed : (Text.trim range).toList = Text.trimEnd Text.isBlank (x :: body ++ more) := by
    have split : Text.trimStart Text.isBlank (first ++ more) = x :: body ++ more := by
      unfold Text.trimStart at start ⊢
      rw [List.dropWhile_append, start]
      rfl
    rw [Text.trim_toList, whole, split]
  have bar : '|' ∉ x :: body := by
    rw [← start]
    exact fun mem => written.no_bar ((List.dropWhile_suffix _).mem mem)
  have fields : Text.fields (Text.upTo "||" (Text.trim range)) = cs.flatMap Comparator.fields := by
    rw [← written.fields_eq, ← Text.fields_trimStart, start]
    unfold Text.upTo
    rw [trimmed]
    exact Text.fields_upTo_bars bar ends
  have lead (c : Char) (differ : x ≠ c) : c ∉ (Text.trim range).toList.head? := by
    intro mem
    rw [trimmed] at mem
    cases Text.trimEnd_head mem
    exact differ rfl
  -- Neither word stands before an operator or a digit.
  have catalog : Text.hasLead "catalog:" (Text.trim range) = false :=
    Text.hasLead_of_head (by decide) (lead 'c' other)
  have workspace : Text.afterLead? "workspace:" (Text.trim range) = none := by
    have none : Text.hasLead "workspace:" (Text.trim range) = false :=
      Text.hasLead_of_head (by decide) (lead 'w' otherwise)
    unfold Text.afterLead?
    rw [none]
    rfl
  unfold Floor.ofRange
  dsimp only
  rw [catalog, workspace, Option.map_none, Option.getD_none, fields,
    ← Comparator.floorOfComparators_flatMap]
  obtain ⟨field, others, some⟩ := List.exists_cons_of_ne_nil (Comparator.flatMap_ne_nil nonempty)
  rw [some]
  rfl

/-- All releases that the comparators admit are at least this one. -/
def Promises (cs : List Comparator) (r : Release) : Prop :=
  ∀ w, (∀ c ∈ cs, c.Admits w) → r ≤ w

/-- The comparator that decides stands together with its version, or it is an upper bound whose
version is promised by the others. -/
def Sound (cs : List Comparator) : Prop :=
  ∀ c ∈ Comparator.decisive? cs, c.gap ≠ [] →
    c.operator.isUpper = true ∧ Promises cs c.version.floor

theorem Comparator.promises {c : Comparator} {cs : List Comparator} (mem : c ∈ cs)
    (lower : c.operator.isUpper = false) : Promises cs c.version.floor := fun _ admitted =>
  (admitted c mem).floor_le lower

theorem Floor.ofRelease_inj {r s : Release} (h : Floor.ofRelease r = Floor.ofRelease s) : r = s := by
  obtain ⟨_, _, _⟩ := r
  cases h
  rfl

theorem Floor.ofRelease_ne_any (r : Release) : Floor.ofRelease r ≠ .any := by
  intro same
  cases same

/-- The floor is promised unless a gap hides the version or the nature of the bound that decides. -/
theorem decisive_sound_iff (cs : List Comparator) :
    ((Comparator.decisive? cs).elim .unbounded Comparator.floor ≠ .any ∧
      ∀ r, (Comparator.decisive? cs).elim .unbounded Comparator.floor = .ofRelease r →
        Promises cs r) ↔ Sound cs := by
  unfold Sound
  cases found : Comparator.decisive? cs with
  | none => simp [Floor.ofRelease]
  | some c =>
    have mem : c ∈ cs := List.mem_of_find?_eq_some found
    have kept : ¬ c.IsPassedOver := by simpa using List.find?_some found
    have own : (∀ r, Floor.ofRelease c.version.floor = .ofRelease r → Promises cs r) ↔
        Promises cs c.version.floor := by
      constructor
      · exact fun h => h _ rfl
      · intro h r same
        rwa [← Floor.ofRelease_inj same]
    simp only [Option.elim_some, Option.mem_def, Option.some.injEq, forall_eq']
    unfold Comparator.floor
    -- Without a gap it is a lower bound; with one it is read as such, or not at all.
    by_cases joined : c.gap = []
    · have lower : c.operator.isUpper = false :=
        Bool.eq_false_iff.mpr fun upper => kept ⟨upper, joined⟩
      rw [if_pos (.inl joined), own]
      constructor
      · intro _ apart
        exact absurd joined apart
      · intro _
        exact ⟨Floor.ofRelease_ne_any _, Comparator.promises mem lower⟩
    · by_cases upper : c.operator.isUpper = true
      · rw [if_pos (.inr upper), own]
        constructor
        · rintro ⟨_, promised⟩ _
          exact ⟨upper, promised⟩
        · intro h
          obtain ⟨_, promised⟩ := h joined
          exact ⟨Floor.ofRelease_ne_any _, promised⟩
      · simp [joined, upper]

theorem sound_of_joined {cs : List Comparator} (h : ∀ c ∈ cs, c.gap = []) : Sound cs := by
  intro c found apart
  exact absurd (h c (List.mem_of_find?_eq_some found)) apart

/-- A minimum is met only by a range that promises it, unless a gap makes the range unsound. -/
theorem satisfies_promised {cs : List Comparator} {range : String}
    (h : FirstAlternative cs range) (nonempty : cs ≠ []) :
    Floor.ofRange range = (Comparator.decisive? cs).elim .unbounded Comparator.floor ∧
    ((Floor.ofRange range ≠ .any ∧
      ∀ r, Floor.ofRange range = .ofRelease r → Promises cs r) ↔ Sound cs) ∧
    (Sound cs → ∀ r : Release,
      satisfies range r.major r.minor r.patch = true → Promises cs r) ∧
    ((∀ c ∈ cs, c.gap = []) → Sound cs) := by
  have read := ofRange_eq h nonempty
  have sound := decisive_sound_iff cs
  rw [← read] at sound
  refine ⟨read, sound, ?_, sound_of_joined⟩
  intro holds r met
  obtain ⟨limited, promised⟩ := sound.mpr holds
  unfold satisfies at met
  cases floor : Floor.ofRange range with
  | any => exact absurd floor limited
  | unbounded =>
    rw [floor] at met
    cases met
  | release a b c =>
    have below : r ≤ ⟨a, b, c⟩ := by
      rw [floor] at met
      simpa [Release.le_iff] using met
    intro w admitted
    exact Release.trans below (promised ⟨a, b, c⟩ floor w admitted)

def capped : Comparator where
  operator := .below
  gap := [' ']
  version := { numbers := [4, 0, 0] }
  blank := List.forall_mem_singleton.mpr rfl

/-- The first release that the cap keeps out is taken for one that it promises. -/
theorem satisfies_promised_capped :
    FirstAlternative [capped] "< 4.0.0" ∧ [capped] ≠ [] ∧
      Floor.ofRange "< 4.0.0" = .ofRelease ⟨4, 0, 0⟩ ∧ satisfies "< 4.0.0" 4 0 0 = true ∧
      ¬ Promises [capped] ⟨4, 0, 0⟩ ∧ ¬ Sound [capped] := by
  have h : FirstAlternative [capped] "< 4.0.0" := by
    have written : Written [capped] ([] ++ (capped.text ++ [])) :=
      .cons (by simp) (by simp) (.nil (by simp))
    exact ⟨_, [], by decide, written, .inl rfl⟩
  have met : satisfies "< 4.0.0" 4 0 0 = true := by decide
  have kept_out : ¬ Promises [capped] ⟨4, 0, 0⟩ := by
    intro promised
    have older : capped.Admits ⟨3, 9, 9⟩ := show (⟨3, 9, 9⟩ : Release) < ⟨4, 0, 0⟩ by decide
    have order := promised ⟨3, 9, 9⟩ fun c mem => List.mem_singleton.mp mem ▸ older
    revert order
    decide
  refine ⟨h, List.cons_ne_nil _ _, by decide, met, kept_out, ?_⟩
  intro sound
  exact kept_out ((satisfies_promised h (List.cons_ne_nil _ _)).2.2.1 sound ⟨4, 0, 0⟩ met)

end Zod

end TypedClients
