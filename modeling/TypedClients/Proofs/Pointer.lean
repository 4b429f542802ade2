import Mathlib.Data.List.TakeWhile
import TypedClients.Document.Pointer

namespace TypedClients

namespace Text

theorem afterLead?_append (lead s : String) : afterLead? lead (lead ++ s) = some s := by
  have found : hasLead lead (lead ++ s) = true := by simp [hasLead]
  simp [afterLead?, found]

theorem eq_append_of_afterLead? {lead s rest : String} (h : afterLead? lead s = some rest) :
    s = lead ++ rest := by
  unfold afterLead? at h
  split at h
  · rename_i found
    obtain ⟨tail, htail⟩ := List.isPrefixOf_iff_prefix.mp found
    cases h
    apply String.toList_injective
    rw [String.toList_append, String.toList_ofList, ← htail, List.drop_left]
  · cases h

theorem afterLead?_eq_some {lead s rest : String} :
    afterLead? lead s = some rest ↔ s = lead ++ rest := by
  constructor
  · exact eq_append_of_afterLead?
  · intro same
    subst same
    exact afterLead?_append lead rest

theorem splitOnce?_eq_some {c : Char} {s first last : String} :
    splitOnce? c s = some (first, last) ↔
      s.toList = first.toList ++ c :: last.toList ∧ c ∉ first.toList := by
  have cut := List.takeWhile_append_dropWhile (p := (· != c)) (l := s.toList)
  unfold splitOnce? before
  constructor
  · intro h
    split at h
    · cases h
    · rename_i d rest found
      cases h
      have mark : d = c := by
        have := List.head?_dropWhile_not (· != c) s.toList
        simpa [found] using this
      subst mark
      rw [String.toList_ofList, String.toList_ofList]
      refine ⟨by rw [← found, cut], fun listed => ?_⟩
      simpa using List.mem_takeWhile_imp listed
  · intro given
    obtain ⟨same, clean⟩ := given
    have kept : ∀ d ∈ first.toList, (d != c) = true := by
      intro d listed
      rw [bne_iff_ne]
      rintro rfl
      exact clean listed
    rw [same, List.dropWhile_append_of_pos kept, List.takeWhile_append_of_pos kept]
    simp

end Text

namespace Pointer

/-- The path is one segment behind one of the two roots, and the segment spells the name. -/
def Names (path name : String) : Prop :=
  ∃ raw, (path = schemaRoot ++ raw ∨ path = legacyRoot ++ raw) ∧ raw ≠ "" ∧ '/' ∉ raw.toList ∧
    name = unescape raw

def NamesComponent (kind path name : String) : Prop :=
  ∃ raw, path = "#/components/" ++ kind ++ "/" ++ raw ∧ name = unescape raw

theorem unescapeChars_escapeChars (cs : List Char) : unescapeChars (escapeChars cs) = cs := by
  induction cs with
  | nil => rfl
  | cons c rest ih =>
    by_cases tilde : c = '~'
    · subst tilde
      simp [escapeChars, unescapeChars, ih]
    · by_cases slash : c = '/'
      · subst slash
        simp [escapeChars, unescapeChars, ih]
      · simp only [escapeChars, tilde, slash, if_false]
        rw [unescapeChars, ih]
        all_goals
          intro _ h
          exact absurd h tilde

theorem unescape_escape (segment : String) : unescape (escape segment) = segment := by
  simp [unescape, escape, unescapeChars_escapeChars]

theorem slash_not_mem_escapeChars (cs : List Char) : '/' ∉ escapeChars cs := by
  induction cs with
  | nil => exact List.not_mem_nil
  | cons c rest ih =>
    simp only [escapeChars]
    split
    · simpa using ih
    · split
      · simpa using ih
      · rename_i notSlash
        simp only [List.mem_cons, ih, or_false]
        exact fun same => notSlash same.symm

theorem slash_not_mem_escape (segment : String) : '/' ∉ (escape segment).toList := by
  rw [escape, String.toList_ofList]
  exact slash_not_mem_escapeChars segment.toList

theorem escape_injective : Function.Injective escape :=
  Function.LeftInverse.injective unescape_escape

theorem escape_ne_empty {name : String} (h : name ≠ "") : escape name ≠ "" := by
  have none : escape "" = "" := rfl
  rw [← none]
  exact escape_injective.ne h

theorem unescapeChars_ne_nil {cs : List Char} (h : cs ≠ []) : unescapeChars cs ≠ [] := by
  fun_cases unescapeChars cs with
  | case1 => exact absurd rfl h
  | case2 => exact List.cons_ne_nil _ _
  | case3 => exact List.cons_ne_nil _ _
  | case4 => exact List.cons_ne_nil _ _

theorem schemaName?_eq_some {path name : String} :
    schemaName? path = some name ↔ Names path name := by
  have segment : ∀ raw : String, (raw.isEmpty || Text.hasChar '/' raw) = false ↔
      raw ≠ "" ∧ '/' ∉ raw.toList := by
    intro raw
    simp [Text.hasChar]
  have legacy : ∀ raw, Text.afterLead? schemaRoot (legacyRoot ++ raw) = none := by
    intro raw
    simp [Text.afterLead?, Text.hasLead, schemaRoot, legacyRoot]
  constructor
  · intro h
    unfold schemaName? at h
    split at h
    · rename_i raw found
      split at h
      · cases h
      · rename_i plain
        cases h
        obtain ⟨nonempty, flat⟩ := (segment raw).mp (Bool.eq_false_iff.mpr plain)
        refine ⟨raw, ?_, nonempty, flat, rfl⟩
        cases lead : Text.afterLead? schemaRoot path with
        | none =>
          rw [lead] at found
          exact .inr (Text.afterLead?_eq_some.mp found)
        | some r =>
          rw [lead] at found
          cases found
          exact .inl (Text.afterLead?_eq_some.mp lead)
    · cases h
  · intro given
    obtain ⟨raw, rfl | rfl, nonempty, flat, rfl⟩ := given
    · simp [schemaName?, Text.afterLead?_append, (segment raw).mpr ⟨nonempty, flat⟩]
    · simp [schemaName?, legacy, Text.afterLead?_append, (segment raw).mpr ⟨nonempty, flat⟩]

/-- One of the two spellings of the place where the schemas stand. -/
def IsRoot (root : String) : Prop := root = schemaRoot ∨ root = legacyRoot

theorem schemaName?_escape {root name : String} (h : IsRoot root) (some_char : name ≠ "") :
    schemaName? (root ++ escape name) = some name := by
  apply schemaName?_eq_some.mpr
  refine ⟨escape name, ?_, escape_ne_empty some_char, slash_not_mem_escape name,
    (unescape_escape name).symm⟩
  rcases h with rfl | rfl
  · exact .inl rfl
  · exact .inr rfl

theorem schemaName?_ofSchema {name : String} (h : name ≠ "") :
    schemaName? (ofSchema name) = some name := schemaName?_escape (.inl rfl) h

theorem componentName?_eq_some {kind path name : String} (flat : '/' ∉ kind.toList) :
    componentName? kind path = some name ↔ NamesComponent kind path name := by
  have segment : ∀ rest raw, Text.splitOnce? '/' rest = some (kind, raw) ↔
      rest = kind ++ "/" ++ raw := by
    intro rest raw
    rw [Text.splitOnce?_eq_some, ← String.toList_inj]
    simp [flat]
  unfold componentName? NamesComponent
  constructor
  · intro h
    split at h
    · rename_i found raw cut
      split at h
      · rename_i same
        subst same
        cases h
        obtain ⟨rest, lead, cut⟩ := Option.bind_eq_some_iff.mp cut
        refine ⟨raw, ?_, rfl⟩
        rw [Text.afterLead?_eq_some.mp lead, (segment rest raw).mp cut]
        simp only [String.append_assoc]
      · cases h
    · cases h
  · intro given
    obtain ⟨raw, rfl, rfl⟩ := given
    have lead : Text.afterLead? "#/components/" ("#/components/" ++ kind ++ "/" ++ raw) =
        some (kind ++ "/" ++ raw) := by
      rw [Text.afterLead?_eq_some]
      simp only [String.append_assoc]
    rw [lead, Option.bind_some, (segment _ raw).mpr rfl]
    simp

theorem schemaName?_ne_empty {path name : String} (h : schemaName? path = some name) :
    name ≠ "" := by
  obtain ⟨raw, _, nonempty, _, rfl⟩ := schemaName?_eq_some.mp h
  intro empty
  have chars : unescapeChars raw.toList = [] := by
    have := congrArg String.toList empty
    simpa [unescape] using this
  exact unescapeChars_ne_nil (fun nil => nonempty (String.toList_injective (by simpa using nil)))
    chars

theorem slash_mem_of_schemaName? {path name : String} (h : schemaName? path = some name) :
    '/' ∈ path.toList := by
  obtain ⟨raw, rfl | rfl, _, _⟩ := schemaName?_eq_some.mp h
  · rw [String.toList_append]
    exact List.mem_append_left _ (by decide)
  · rw [String.toList_append]
    exact List.mem_append_left _ (by decide)

end Pointer

end TypedClients
