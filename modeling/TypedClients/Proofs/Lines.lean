import Mathlib.Data.List.DropRight
import TypedClients.Text.Cut

namespace TypedClients.Text

variable {p : Char → Bool} {c : Char} {s : String} {line cs : List Char}

theorem trimEnd_eq (p : Char → Bool) (cs : List Char) : trimEnd p cs = cs.rdropWhile p := rfl

theorem trimStart_of_head (h : ∀ c ∈ cs.head?, p c = false) : trimStart p cs = cs := by
  cases cs with
  | nil => rfl
  | cons c rest => simp [trimStart, h c rfl]

theorem trimStart_head (h : c ∈ (trimStart p cs).head?) : p c = false := by
  have stops := List.head?_dropWhile_not p cs
  have first : (cs.dropWhile p).head? = some c := h
  rw [first] at stops
  simpa using stops

theorem prefix_trimEnd (p : Char → Bool) (cs : List Char) : trimEnd p cs <+: cs :=
  List.rdropWhile_prefix p cs

theorem trimEnd_head (h : c ∈ (trimEnd p cs).head?) : c ∈ cs.head? := by
  obtain ⟨tail, whole⟩ := prefix_trimEnd p cs
  obtain ⟨rest, kept⟩ := List.head?_eq_some_iff.mp h
  rw [← whole, kept]
  rfl

theorem trimEnd_last (h : c ∈ (trimEnd p cs).getLast?) : p c = false := by
  rw [trimEnd_eq] at h
  obtain ⟨nonempty, rfl⟩ := List.mem_getLast?_eq_getLast h
  exact Bool.eq_false_iff.mpr (List.rdropWhile_last_not p cs nonempty)

theorem trimEnd_append (last : ∀ c ∈ line.getLast?, p c = false) (cs : List Char) :
    trimEnd p (line ++ cs) = line ++ trimEnd p cs := by
  have start : line.reverse.dropWhile p = line.reverse :=
    trimStart_of_head fun c first => last c (by rwa [List.head?_reverse] at first)
  unfold trimEnd
  rw [List.reverse_append, List.dropWhile_append, start]
  split
  · rename_i none
    rw [List.isEmpty_iff.mp none, List.reverse_reverse]
    simp
  · simp

/-- All that is blank at the end of the text is cut off, and nothing else. -/
structure Trims (s trimmed : String) : Prop where
  blanks : ∃ tail : String, s = trimmed ++ tail ∧ ∀ c ∈ tail.toList, isBlank c = true
  last : ∀ c ∈ trimmed.toList.getLast?, isBlank c = false

theorem trims_trimEndBlanks (s : String) : Trims s (trimEndBlanks s) where
  blanks := by
    refine ⟨String.ofList (s.toList.rtakeWhile isBlank), ?_, fun c mem => ?_⟩
    · apply String.toList_injective
      rw [String.toList_append, trimEndBlanks, String.toList_ofList, String.toList_ofList]
      exact List.rdropWhile_append_rtakeWhile.symm
    · rw [String.toList_ofList] at mem
      exact List.mem_rtakeWhile_imp mem
  last := by
    intro c ends
    rw [trimEndBlanks, String.toList_ofList] at ends
    exact trimEnd_last ends

theorem trim_toList (s : String) :
    (trim s).toList = trimEnd isBlank (trimStart isBlank s.toList) := String.toList_ofList

@[simp] theorem trim_trim (s : String) : trim (trim s) = trim s := by
  apply String.toList_inj.mp
  rw [trim_toList (trim s), trim_toList]
  have start : trimStart isBlank (trimEnd isBlank (trimStart isBlank s.toList)) =
      trimEnd isBlank (trimStart isBlank s.toList) :=
    trimStart_of_head fun c first => trimStart_head (trimEnd_head first)
  rw [start]
  exact List.rdropWhile_idempotent _ _

theorem mem_of_mem_trim (h : c ∈ (trim s).toList) : c ∈ s.toList := by
  rw [trim_toList] at h
  have early : c ∈ trimStart isBlank s.toList := (prefix_trimEnd _ _).mem h
  exact (List.dropWhile_suffix isBlank).mem early

theorem trim_last (h : c ∈ (trim s).toList.getLast?) : isBlank c = false := by
  rw [trim_toList] at h
  exact trimEnd_last h

theorem dropReturn_of_last (h : '\r' ∉ cs.getLast?) : dropReturn cs = cs := by
  have other : cs.getLast? ≠ some '\r' := h
  simp [dropReturn, other]

theorem mem_of_mem_dropReturn (h : c ∈ dropReturn cs) : c ∈ cs := by
  unfold dropReturn at h
  split at h
  · exact List.dropLast_subset cs h
  · exact h

theorem linesFrom_flat (flat : '\n' ∉ cs) (line rest : List Char) :
    linesFrom line (cs ++ '\n' :: rest) = dropReturn (line.reverse ++ cs) :: linesFrom [] rest := by
  induction cs generalizing line with
  | nil => simp [linesFrom]
  | cons c more ih =>
    have other : c ≠ '\n' := fun same => flat (same ▸ List.mem_cons_self)
    have later : '\n' ∉ more := fun mem => flat (List.mem_cons_of_mem _ mem)
    simp [linesFrom, other, ih later]

theorem linesFrom_clean (flat : '\n' ∉ line) : ∀ l ∈ linesFrom line cs, '\n' ∉ l := by
  induction cs generalizing line with
  | nil =>
    intro l mem
    rw [linesFrom] at mem
    split at mem
    · cases mem
    · have same := List.mem_singleton.mp mem
      subst same
      exact fun inside => flat (List.mem_reverse.mp inside)
  | cons c rest ih =>
    rw [linesFrom]
    split
    · intro l mem
      rcases List.mem_cons.mp mem with rfl | later
      · intro inside
        exact flat (List.mem_reverse.mp (mem_of_mem_dropReturn inside))
      · exact ih (fun none => by cases none) l later
    · rename_i other
      apply ih
      intro mem
      rcases List.mem_cons.mp mem with same | mem
      · exact other same.symm
      · exact flat mem

theorem lines_flat {l : String} (h : l ∈ lines s) : '\n' ∉ l.toList := by
  obtain ⟨cs, mem, rfl⟩ := List.mem_map.mp h
  rw [String.toList_ofList]
  exact linesFrom_clean (fun none => by cases none) cs mem

theorem join_lines_toList {xs : List String} (nonempty : xs ≠ []) :
    (join "\n" xs ++ "\n").toList = xs.flatMap fun x => x.toList ++ ['\n'] := by
  induction xs with
  | nil => exact absurd rfl nonempty
  | cons x rest ih =>
    cases rest with
    | nil => simp [join, String.intercalate_singleton]
    | cons y more =>
      have later := ih (List.cons_ne_nil _ _)
      unfold join at later ⊢
      rw [String.intercalate_cons_cons, List.flatMap_cons, ← later]
      simp

theorem lines_join {xs : List String} (nonempty : xs ≠ []) (flat : ∀ x ∈ xs, '\n' ∉ x.toList)
    (last : ∀ x ∈ xs, '\r' ∉ x.toList.getLast?) : lines (join "\n" xs ++ "\n") = xs := by
  have read : linesFrom [] (xs.flatMap fun x => x.toList ++ ['\n']) = xs.map String.toList := by
    clear nonempty
    induction xs with
    | nil => rfl
    | cons x rest ih =>
      have here := linesFrom_flat (flat x List.mem_cons_self) []
        (rest.flatMap fun x => x.toList ++ ['\n'])
      have kept : dropReturn x.toList = x.toList := dropReturn_of_last (last x List.mem_cons_self)
      have later := ih (fun y mem => flat y (List.mem_cons_of_mem _ mem))
        (fun y mem => last y (List.mem_cons_of_mem _ mem))
      rw [List.flatMap_cons, List.append_assoc, List.singleton_append, here, later,
        List.reverse_nil, List.nil_append, kept, List.map_cons]
  unfold lines
  rw [join_lines_toList nonempty, read, List.map_map]
  simp

theorem mem_join {separator : String} {xs : List String} (h : c ∈ (join separator xs).toList) :
    c ∈ separator.toList ∨ ∃ x ∈ xs, c ∈ x.toList := by
  induction xs with
  | nil => cases h
  | cons x rest ih =>
    cases rest with
    | nil =>
      unfold join at h
      rw [String.intercalate_singleton] at h
      exact .inr ⟨x, List.mem_cons_self, h⟩
    | cons y more =>
      unfold join at h ih
      rw [String.intercalate_cons_cons, String.toList_append, String.toList_append,
        List.mem_append, List.mem_append] at h
      rcases h with (first | between) | later
      · exact .inr ⟨x, List.mem_cons_self, first⟩
      · exact .inl between
      · rcases ih later with between | ⟨z, mem, inside⟩
        · exact .inl between
        · exact .inr ⟨z, List.mem_cons_of_mem _ mem, inside⟩

theorem mem_partsFrom {part q : List Char} (h : q ∈ partsFrom p part cs) (inside : c ∈ q) :
    c ∈ part ∨ c ∈ cs := by
  induction cs generalizing part with
  | nil =>
    have same := List.mem_singleton.mp h
    subst same
    exact .inl (List.mem_reverse.mp inside)
  | cons d rest ih =>
    rw [partsFrom] at h
    split at h
    · rcases List.mem_cons.mp h with rfl | later
      · exact .inl (List.mem_reverse.mp inside)
      · rcases ih later with none | behind
        · cases none
        · exact .inr (List.mem_cons_of_mem _ behind)
    · rcases ih h with early | behind
      · rcases List.mem_cons.mp early with rfl | before
        · exact .inr List.mem_cons_self
        · exact .inl before
      · exact .inr (List.mem_cons_of_mem _ behind)

theorem mem_splitAt {mark : Char} {part : String} (h : part ∈ splitAt mark s)
    (inside : c ∈ part.toList) : c ∈ s.toList := by
  obtain ⟨q, mem, rfl⟩ := List.mem_map.mp h
  rw [String.toList_ofList] at inside
  rcases mem_partsFrom mem inside with none | whole
  · cases none
  · exact whole

theorem mem_beforeTail {tail : String} (h : c ∈ ((beforeTail? tail s).getD s).toList) :
    c ∈ s.toList := by
  unfold beforeTail? at h
  split at h
  · rw [Option.getD_some, String.toList_ofList] at h
    exact List.mem_of_mem_take h
  · exact h

end TypedClients.Text
