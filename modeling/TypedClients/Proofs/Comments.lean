import Mathlib.Data.List.Infix
import TypedClients.Client.Backend
import TypedClients.Output.Page
import TypedClients.Zod.Backend

namespace TypedClients

open TypeScript (escapeComment)

/-- The text closes a comment with its last two characters and nowhere before. -/
structure EndsComment (s : String) : Prop where
  closed : ∃ body, s = body ++ "*/"
  once : ∀ before after, s = before ++ "*/" ++ after → after = ""

def LeavesOpen (s : String) : Prop := ¬ ['*', '/'] <:+: s.toList

instance (s : String) : Decidable (LeavesOpen s) := inferInstanceAs (Decidable (¬ _))

theorem pair_infix_append {a b : Char} {xs ys : List Char} : [a, b] <:+: xs ++ ys ↔
    [a, b] <:+: xs ∨ [a, b] <:+: ys ∨ xs.getLast? = some a ∧ ys.head? = some b := by
  induction xs with
  | nil => simp
  | cons x rest ih =>
    rw [List.cons_append, List.infix_cons_iff, ih, List.infix_cons_iff, List.cons_prefix_cons,
      List.cons_prefix_cons]
    cases rest with
    | nil =>
      have next : [b] <+: ys ↔ ys.head? = some b := by
        cases ys with
        | nil => simp
        | cons y more => simp [List.cons_prefix_cons, eq_comm]
      have first : a = x ↔ x = a := eq_comm
      simp [next, first, or_comm]
    | cons y more =>
      rw [List.getLast?_cons_cons]
      simp only [List.cons_append, List.cons_prefix_cons, List.nil_prefix]
      tauto

variable {s t : String}

theorem leavesOpen_append
    (apart : s.toList.getLast? ≠ some '*' ∨ t.toList.head? ≠ some '/') :
    LeavesOpen (s ++ t) ↔ LeavesOpen s ∧ LeavesOpen t := by
  unfold LeavesOpen
  rw [String.toList_append, pair_infix_append]
  tauto

structure Parts (middle : String) : Prop where
  filled : middle ≠ ""
  inner : LeavesOpen middle
  first : middle.toList.head? ≠ some '/'
  last : middle.toList.getLast? ≠ some '*'

instance (middle : String) : Decidable (Parts middle) :=
  decidable_of_iff (middle ≠ "" ∧ LeavesOpen middle ∧ middle.toList.head? ≠ some '/' ∧
      middle.toList.getLast? ≠ some '*')
    ⟨fun ⟨filled, inner, first, last⟩ => ⟨filled, inner, first, last⟩,
      fun ⟨filled, inner, first, last⟩ => ⟨filled, inner, first, last⟩⟩

theorem Parts.leavesOpen {middle : String} (h : Parts middle) :
    LeavesOpen (s ++ middle ++ t) ↔ LeavesOpen s ∧ LeavesOpen t := by
  have front : LeavesOpen (s ++ middle) ↔ LeavesOpen s ∧ LeavesOpen middle :=
    leavesOpen_append (.inr h.first)
  have last : (s ++ middle).toList.getLast? = middle.toList.getLast? := by
    rw [String.toList_append, List.getLast?_append_of_ne_nil]
    simpa using h.filled
  rw [leavesOpen_append (.inl (by rw [last]; exact h.last)), front]
  simp [h.inner]

theorem endsComment_iff : EndsComment (s ++ "*/") ↔ LeavesOpen (s ++ "*") := by
  have closing : "*/".toList = ['*', '/'] := rfl
  constructor
  · rintro h ⟨front, back, inside⟩
    have early := h.once (String.ofList front) (String.ofList (back ++ ['/'])) ?_
    · simpa using congrArg String.toList early
    · apply String.toList_injective
      rw [String.toList_append] at inside
      simp only [String.toList_append, String.toList_ofList, closing]
      have tail : s.toList ++ ['*', '/'] = s.toList ++ "*".toList ++ ['/'] := by simp
      rw [tail, ← inside]
      simp
  · intro inside
    refine ⟨⟨s, rfl⟩, fun before after same => ?_⟩
    by_contra more
    have letters : s.toList ++ ['*'] ++ ['/'] = before.toList ++ ['*', '/'] ++ after.toList := by
      have whole := congrArg String.toList same
      simpa [closing] using whole
    have rest : after.toList ≠ [] := by simpa using more
    rw [← List.dropLast_concat_getLast rest, ← List.append_assoc] at letters
    obtain ⟨body, _⟩ := List.append_inj' letters rfl
    exact inside ⟨_, _, by rw [String.toList_append]; exact body.symm⟩

theorem endsComment_spaced : EndsComment (s ++ " */") ↔ LeavesOpen s := by
  have split : s ++ " */" = (s ++ " ") ++ "*/" := by rw [String.append_assoc]; rfl
  rw [split, endsComment_iff, String.append_assoc, leavesOpen_append (.inr (by decide))]
  exact and_iff_left (by decide)

theorem escape_chars (skip : Nat) (cs : List Char) :
    ¬ ['*', '/'] <:+: Text.replaceFrom ['*', '/'] ['*', '\\', '/'] skip cs ∧
      (skip = 0 → (Text.replaceFrom ['*', '/'] ['*', '\\', '/'] skip cs).head? = some '/' →
        cs.head? = some '/') := by
  induction cs generalizing skip with
  | nil => cases skip <;> simp [Text.replaceFrom]
  | cons c rest ih =>
    cases skip with
    | succ n => exact ⟨(ih n).1, fun zero => absurd zero (Nat.succ_ne_zero n)⟩
    | zero =>
      rw [Text.replaceFrom]
      by_cases closes : ['*', '/'].isPrefixOf (c :: rest) = true
      · rw [if_pos closes, pair_infix_append]
        refine ⟨?_, fun _ slash => absurd slash (by simp)⟩
        have escaped : ¬ ['*', '/'] <:+: ['*', '\\', '/'] := by decide
        simp [(ih 1).1, escaped]
      · obtain ⟨inner, first⟩ := ih 0
        rw [if_neg closes, List.infix_cons_iff, List.cons_prefix_cons]
        refine ⟨?_, fun _ slash => slash⟩
        rintro (⟨rfl, slash⟩ | inside)
        · -- A slash that comes first was there before and has been escaped with the star.
          have before : rest.head? = some '/' := first rfl (by
            obtain ⟨more, same⟩ := slash
            rw [← same]
            rfl)
          cases rest with
          | nil => cases before
          | cons d more =>
            cases Option.some.inj before
            exact closes rfl
        · exact inner inside

theorem leavesOpen_escape (s : String) : LeavesOpen (escapeComment s) := by
  unfold LeavesOpen escapeComment Text.replace
  rw [String.toList_ofList]
  exact (escape_chars 0 s.toList).1

theorem Parts.leavesOpen_join {separator : String} (h : Parts separator) {xs : List String}
    (all : ∀ x ∈ xs, LeavesOpen x) : LeavesOpen (Text.join separator xs) := by
  unfold Text.join
  induction xs with
  | nil =>
    rw [String.intercalate_nil]
    decide
  | cons x rest ih =>
    have first := all x List.mem_cons_self
    have later := ih fun y mem => all y (List.mem_cons_of_mem _ mem)
    cases rest with
    | nil =>
      rw [String.intercalate_singleton]
      exact first
    | cons y more =>
      rw [String.intercalate_cons_cons]
      exact h.leavesOpen.mpr ⟨first, later⟩

theorem banner_endsComment {title version : String} :
    EndsComment (banner title version) ↔ LeavesOpen title ∧ LeavesOpen version := by
  have close : ")\n */" = ")\n" ++ " */" := rfl
  have between : Parts " (version " := by decide
  unfold banner
  rw [close, ← String.append_assoc, endsComment_spaced, leavesOpen_append (.inr (by decide)),
    between.leavesOpen, leavesOpen_append (.inl (by decide))]
  have opening : LeavesOpen "/**\n * Generated by apigen. Do not edit.\n * " := by decide
  have closing : LeavesOpen ")\n" := by decide
  simp [opening, closing]

theorem endsComment_around {opening : String} (start : LeavesOpen opening)
    (last : opening.toList.getLast? ≠ some '*') (inner : LeavesOpen s) :
    EndsComment (opening ++ s ++ " */") :=
  endsComment_spaced.mpr ((leavesOpen_append (.inl last)).mpr ⟨start, inner⟩)

theorem commentLine_leavesOpen (h : LeavesOpen s) : LeavesOpen (Client.commentLine s) := by
  unfold Client.commentLine
  split
  · decide
  · exact (leavesOpen_append (.inl (by decide))).mpr ⟨by decide, h⟩

theorem block_endsComment {lines : List String} (all : ∀ l ∈ lines, LeavesOpen l) :
    EndsComment ("/**\n" ++ Text.join "\n" (lines.map Client.commentLine) ++ "\n */") := by
  have close : "\n */" = "\n" ++ " */" := rfl
  have feed : Parts "\n" := by decide
  rw [close, ← String.append_assoc, endsComment_spaced, leavesOpen_append (.inr (by decide)),
    leavesOpen_append (.inl (by decide))]
  refine ⟨⟨by decide, feed.leavesOpen_join fun line mem => ?_⟩, by decide⟩
  obtain ⟨l, given, rfl⟩ := List.mem_map.mp mem
  exact commentLine_leavesOpen (all l given)

theorem Client.comment_endsComment {e : Endpoint} (h : comment? e = some s) : EndsComment s := by
  unfold comment? at h
  rw [Option.ite_none_left_eq_some] at h
  obtain ⟨_, written⟩ := h
  cases Option.some.inj written
  apply block_endsComment
  intro l mem
  rcases List.mem_append.mp mem with text | mark
  · obtain ⟨line, _, rfl⟩ := List.mem_map.mp text
    exact leavesOpen_escape _
  · split at mark
    · cases List.mem_singleton.mp mark
      decide
    · cases mark

namespace Client

def paramNote? (p : Param) : Option String :=
  if (paramNotes p).isEmpty then none
  else some ("/** " ++ Text.join " " (paramNotes p) ++ " */")

def typeNotes (e : Endpoint) : List String :=
  (e.queryParams ++ e.headers).flatMap fun p => (paramNote? p).toList

theorem paramNote_endsComment {p : Param} (h : paramNote? p = some s) : EndsComment s := by
  unfold paramNote? at h
  rw [Option.ite_none_left_eq_some] at h
  obtain ⟨_, written⟩ := h
  cases Option.some.inj written
  have blank : Parts " " := by decide
  refine endsComment_around (by decide) (by decide) (blank.leavesOpen_join fun note mem => ?_)
  rcases List.mem_append.mp mem with text | mark
  · obtain ⟨d, _, rfl⟩ := Option.map_eq_some_iff.mp (Option.mem_toList.mp text)
    exact leavesOpen_escape _
  · split at mark
    · cases List.mem_singleton.mp mark
      decide
    · cases mark

theorem typeNotes_endsComment {e : Endpoint} (h : s ∈ typeNotes e) : EndsComment s := by
  obtain ⟨p, _, note⟩ := List.mem_flatMap.mp h
  exact paramNote_endsComment (Option.mem_toList.mp note)

def notes (e : Endpoint) : List String := typeNotes e ++ (comment? e).toList

theorem notes_endsComment {e : Endpoint} (h : s ∈ notes e) : EndsComment s := by
  rcases List.mem_append.mp h with param | own
  · exact typeNotes_endsComment param
  · exact comment_endsComment (Option.mem_toList.mp own)

end Client

namespace TypeScript

def fieldNote? (f : FieldDecl) : Option String :=
  (nonEmpty? f.description).map fun d => "/** " ++ escapeComment d ++ " */"

def notes (m : Model) : List String :=
  ((nonEmpty? m.description).map fun d => "/**\n * " ++ escapeComment d ++ "\n */").toList ++
    match m.body with
    | .object fields _ => fields.flatMap fun f => (fieldNote? f).toList
    | _ => []

theorem notes_endsComment {m : Model} (h : s ∈ notes m) : EndsComment s := by
  rcases List.mem_append.mp h with own | field
  · obtain ⟨d, _, rfl⟩ := Option.map_eq_some_iff.mp (Option.mem_toList.mp own)
    have close : "\n */" = "\n" ++ " */" := rfl
    rw [close, ← String.append_assoc, endsComment_spaced, leavesOpen_append (.inr (by decide)),
      leavesOpen_append (.inl (by decide))]
    exact ⟨⟨by decide, leavesOpen_escape d⟩, by decide⟩
  · split at field
    · obtain ⟨f, _, note⟩ := List.mem_flatMap.mp field
      obtain ⟨d, _, rfl⟩ := Option.map_eq_some_iff.mp (Option.mem_toList.mp note)
      exact endsComment_around (by decide) (by decide) (leavesOpen_escape d)
    · cases field

end TypeScript

namespace Zod

def note? (s : SchemaRef) : Option String :=
  (s.item?.bind (·.description)).map fun d =>
    "/** " ++ escapeComment (Text.replace "\n" " " d) ++ " */"

theorem note_endsComment {schema : SchemaRef} (h : note? schema = some s) : EndsComment s := by
  obtain ⟨d, _, rfl⟩ := Option.map_eq_some_iff.mp h
  exact endsComment_around (by decide) (by decide) (leavesOpen_escape _)

end Zod

end TypedClients
