import TypedClients.Output.Import

namespace TypedClients

namespace Text

variable {p : Char → Bool}

theorem partsFrom_of_none {part cs : List Char} (h : ∀ c ∈ cs, p c = false) :
    partsFrom p part cs = [part.reverse ++ cs] := by
  induction cs generalizing part with
  | nil => simp [partsFrom]
  | cons c rest ih =>
    have here : p c = false := h c List.mem_cons_self
    have later : partsFrom p (c :: part) rest = [(c :: part).reverse ++ rest] :=
      ih fun d mem => h d (List.mem_cons_of_mem _ mem)
    simp [partsFrom, here, later]

theorem partsFrom_append_mark {c : Char} (mark : p c = true) (part left right : List Char) :
    partsFrom p part (left ++ c :: right) = partsFrom p part left ++ partsFrom p [] right := by
  induction left generalizing part with
  | nil => simp [partsFrom, mark]
  | cons d rest ih =>
    by_cases cut : p d = true
    · simp [partsFrom, cut, ih]
    · simp [partsFrom, cut, ih]

theorem partsFrom_ne_nil (part cs : List Char) : partsFrom p part cs ≠ [] := by
  induction cs generalizing part with
  | nil => exact List.cons_ne_nil _ _
  | cons c rest ih =>
    rw [partsFrom]
    split
    · exact List.cons_ne_nil _ _
    · exact ih _

theorem partsFrom_append {tail : List Char} (h : ∀ c ∈ tail, p c = false) (part cs : List Char) :
    ∃ parts last, partsFrom p part cs = parts ++ [last] ∧
      partsFrom p part (cs ++ tail) = parts ++ [last ++ tail] := by
  induction cs generalizing part with
  | nil =>
    refine ⟨[], part.reverse, rfl, ?_⟩
    rw [List.nil_append, partsFrom_of_none h]
    rfl
  | cons c rest ih =>
    by_cases cut : p c = true
    · obtain ⟨parts, last, whole, longer⟩ := ih []
      refine ⟨part.reverse :: parts, last, ?_, ?_⟩
      · simp [partsFrom, cut, whole]
      · simp [partsFrom, cut, longer]
    · obtain ⟨parts, last, whole, longer⟩ := ih (c :: part)
      refine ⟨parts, last, ?_, ?_⟩
      · simp [partsFrom, cut, whole]
      · simp [partsFrom, cut, longer]

theorem partsFrom_clean {part cs : List Char} (clean : ∀ c ∈ part, p c = false) :
    ∀ q ∈ partsFrom p part cs, ∀ c ∈ q, p c = false := by
  induction cs generalizing part with
  | nil =>
    intro q mem c inside
    have same := List.mem_singleton.mp mem
    subst same
    exact clean c (List.mem_reverse.mp inside)
  | cons d rest ih =>
    rw [partsFrom]
    split
    · intro q mem c inside
      rcases List.mem_cons.mp mem with rfl | later
      · exact clean c (List.mem_reverse.mp inside)
      · exact ih (fun _ none => by cases none) q later c inside
    · rename_i kept
      apply ih
      intro c mem
      rcases List.mem_cons.mp mem with rfl | mem
      · exact Bool.eq_false_iff.mpr kept
      · exact clean c mem

theorem join_singleton (separator part : String) : join separator [part] = part :=
  String.intercalate_singleton

theorem join_cons (separator part : String) {rest : List String} (nonempty : rest ≠ []) :
    join separator (part :: rest) = part ++ separator ++ join separator rest := by
  obtain ⟨next, more, rfl⟩ := List.exists_cons_of_ne_nil nonempty
  exact String.intercalate_cons_cons

section

variable {mark : Char}

theorem unmarked_chars {cs : List Char} (h : mark ∉ cs) : ∀ c ∈ cs, (c == mark) = false := by
  intro c mem
  rw [beq_eq_false_iff_ne]
  intro same
  subst same
  exact h mem

theorem splitAt_mark (mark : Char) (left right : String) :
    splitAt mark (left ++ String.singleton mark ++ right) =
      splitAt mark left ++ splitAt mark right := by
  have chars : (left ++ String.singleton mark ++ right).toList =
      left.toList ++ mark :: right.toList := by simp
  unfold splitAt parts
  rw [chars, partsFrom_append_mark (p := (· == mark)) (beq_self_eq_true mark), List.map_append]

theorem splitAt_flat {s : String} (h : mark ∉ s.toList) : splitAt mark s = [s] := by
  unfold splitAt parts
  rw [partsFrom_of_none (unmarked_chars h)]
  simp

theorem splitAt_ne_nil (mark : Char) (s : String) : splitAt mark s ≠ [] := by
  unfold splitAt parts
  rw [ne_eq, List.map_eq_nil_iff]
  exact partsFrom_ne_nil _ _

theorem splitAt_clean {s part : String} (h : part ∈ splitAt mark s) : mark ∉ part.toList := by
  obtain ⟨cs, mem, rfl⟩ := List.mem_map.mp h
  intro inside
  rw [String.toList_ofList] at inside
  have clean := partsFrom_clean (fun _ none => by cases none) cs mem mark inside
  rw [beq_self_eq_true] at clean
  cases clean

theorem splitAt_join {parts : List String} (nonempty : parts ≠ [])
    (clean : ∀ part ∈ parts, mark ∉ part.toList) :
    splitAt mark (join (String.singleton mark) parts) = parts := by
  induction parts with
  | nil => exact absurd rfl nonempty
  | cons part rest ih =>
    have here := splitAt_flat (clean part List.mem_cons_self)
    by_cases none : rest = []
    · rw [none, join_singleton, here]
    · have later := ih none fun q mem => clean q (List.mem_cons_of_mem _ mem)
      rw [join_cons _ _ none, splitAt_mark, here, later]
      rfl

end

end Text

theorem pathParts_slash (left right : String) :
    pathParts (left ++ "/" ++ right) = pathParts left ++ pathParts right :=
  Text.splitAt_mark '/' left right

theorem pathParts_flat {s : String} (h : '/' ∉ s.toList) : pathParts s = [s] := Text.splitAt_flat h

theorem pathParts_ne_nil (path : String) : pathParts path ≠ [] := Text.splitAt_ne_nil '/' path

theorem pathParts_clean {path part : String} (h : part ∈ pathParts path) : '/' ∉ part.toList :=
  Text.splitAt_clean h

theorem pathParts_join {parts : List String} (nonempty : parts ≠ [])
    (clean : ∀ part ∈ parts, '/' ∉ part.toList) : pathParts (Text.join "/" parts) = parts :=
  Text.splitAt_join nonempty clean

theorem pathParts_append {tail : String} (flat : '/' ∉ tail.toList) (path : String) :
    ∃ parts last, pathParts path = parts ++ [last] ∧
      pathParts (path ++ tail) = parts ++ [last ++ tail] := by
  obtain ⟨parts, last, whole, longer⟩ :=
    Text.partsFrom_append (Text.unmarked_chars flat) [] path.toList
  refine ⟨parts.map String.ofList, String.ofList last, ?_, ?_⟩
  · unfold pathParts Text.splitAt Text.parts
    rw [whole, List.map_append]
    rfl
  · unfold pathParts Text.splitAt Text.parts
    rw [String.toList_append, longer, List.map_append]
    simp

def directory (path : String) : List String := (pathParts path).dropLast

theorem directory_append {tail : String} (flat : '/' ∉ tail.toList) (path : String) :
    directory (path ++ tail) = directory path := by
  obtain ⟨parts, last, whole, longer⟩ := pathParts_append flat path
  unfold directory
  rw [whole, longer, List.dropLast_concat, List.dropLast_concat]

theorem directory_flat {path : String} (flat : '/' ∉ path.toList) : directory path = [] := by
  unfold directory
  rw [pathParts_flat flat]
  rfl

theorem directory_slash {path : String} (flat : '/' ∉ path.toList) (first : String) :
    directory (first ++ "/" ++ path) = pathParts first := by
  unfold directory
  rw [pathParts_slash, pathParts_flat flat, List.dropLast_concat]

theorem beforeTail?_append (s tail : String) : Text.beforeTail? tail (s ++ tail) = some s := by
  have found : Text.hasTail tail (s ++ tail) = true := by simp [Text.hasTail]
  unfold Text.beforeTail?
  rw [if_pos found]
  simp

theorem moduleParts_suffix (module : String) : moduleParts (module ++ ".ts") = pathParts module := by
  unfold moduleParts
  rw [beforeTail?_append]
  rfl

/-- What is left of a path when the suffix of a source file is cut off, if it has one. -/
def IsStem (module path : String) : Prop :=
  path = module ++ ".ts" ∨ module = path ∧ Text.hasTail ".ts" path = false

theorem exists_stem (path : String) :
    ∃ module, IsStem module path ∧ moduleParts path = pathParts module := by
  cases found : Text.hasTail ".ts" path with
  | false =>
    refine ⟨path, .inr ⟨rfl, found⟩, ?_⟩
    unfold moduleParts Text.beforeTail?
    rw [found]
    rfl
  | true =>
    obtain ⟨cs, whole⟩ := List.isSuffixOf_iff_suffix.mp found
    have same : path = String.ofList cs ++ ".ts" := by
      apply String.toList_injective
      rw [String.toList_append, String.toList_ofList, whole]
    refine ⟨String.ofList cs, .inl same, ?_⟩
    rw [same, moduleParts_suffix]

theorem IsStem.directory {module path : String} (h : IsStem module path) :
    directory module = directory path := by
  rcases h with rfl | ⟨rfl, _⟩
  · exact (directory_append (by decide) module).symm
  · rfl

theorem exists_moduleParts (path : String) : ∃ last, moduleParts path = directory path ++ [last] := by
  obtain ⟨module, stem, parts⟩ := exists_stem path
  refine ⟨(pathParts module).getLast (pathParts_ne_nil module), ?_⟩
  rw [parts, ← stem.directory]
  exact (List.dropLast_concat_getLast _).symm

def walkStep (place : List String) (part : String) : List String :=
  if part = "" ∨ part = "." then place
  else if part = ".." then
    match place with
    | [] => [".."]
    | last :: rest => if last = ".." then ".." :: last :: rest else rest
  else part :: place

def walk (place parts : List String) : List String := parts.foldl walkStep place

structure Plain (part : String) : Prop where
  nonempty : part ≠ ""
  here : part ≠ "."
  up : part ≠ ".."

instance (part : String) : Decidable (Plain part) :=
  decidable_of_iff (part ≠ "" ∧ part ≠ "." ∧ part ≠ "..")
    ⟨fun h => ⟨h.1, h.2.1, h.2.2⟩, fun h => ⟨h.nonempty, h.here, h.up⟩⟩

/-- A relative specifier in one file leads to another file, whose suffix it leaves out. -/
def Leads (importer specifier path : String) : Prop :=
  (Text.hasLead "./" specifier = true ∨ Text.hasLead "../" specifier = true) ∧
    ∃ module, path = module ++ ".ts" ∧
      walk (walk [] (directory importer)) (pathParts specifier) = walk [] (pathParts module)

theorem walk_append (place first second : List String) :
    walk place (first ++ second) = walk (walk place first) second := List.foldl_append

theorem walkStep_plain {part : String} (plain : Plain part) (place : List String) :
    walkStep place part = part :: place := by
  simp [walkStep, plain.nonempty, plain.here, plain.up]

theorem walkStep_up {part : String} (plain : Plain part) (place : List String) :
    walkStep (part :: place) ".." = place := by
  simp [walkStep, plain.up]

theorem walk_ups {parts : List String} (plain : ∀ part ∈ parts, Plain part)
    (place : List String) : walk (walk place parts) (List.replicate parts.length "..") = place := by
  induction parts generalizing place with
  | nil => rfl
  | cons part rest ih =>
    have first := plain part List.mem_cons_self
    have later := ih fun q mem => plain q (List.mem_cons_of_mem _ mem)
    have down : walk place (part :: rest) = walk (part :: place) rest := by
      show walk (walkStep place part) rest = _
      rw [walkStep_plain first]
    rw [down, List.length_cons, List.replicate_succ', walk_append, later]
    exact walkStep_up first place

theorem sharedLead_le : ∀ as bs : List String,
    sharedLead as bs ≤ as.length ∧ sharedLead as bs ≤ bs.length
  | [], _ => by simp [sharedLead]
  | _ :: _, [] => by simp [sharedLead]
  | a :: as, b :: bs => by
    have rest := sharedLead_le as bs
    simp only [sharedLead, List.length_cons]
    split <;> omega

theorem take_sharedLead : ∀ as bs : List String,
    as.take (sharedLead as bs) = bs.take (sharedLead as bs)
  | [], _ => by simp [sharedLead]
  | _ :: _, [] => by simp [sharedLead]
  | a :: as, b :: bs => by
    have rest := take_sharedLead as bs
    by_cases same : a = b
    · simp [sharedLead, same, rest]
    · simp [sharedLead, same]

theorem sharedLead_self (as : List String) : sharedLead as as = as.length := by
  induction as with
  | nil => rfl
  | cons a rest ih => simp [sharedLead, ih]

def ascent (steps : Nat) : List String := if steps = 0 then ["."] else List.replicate steps ".."

/-- The parts of a path that do not lead to another one. -/
def unshared (here there : List String) : List String := here.drop (sharedLead here there)

def wayBetween (here there : List String) : List String :=
  ascent (unshared here there).length ++ there.drop (sharedLead here there)

theorem shared_append_unshared (here there : List String) :
    there.take (sharedLead here there) ++ unshared here there = here := by
  rw [← take_sharedLead, unshared, List.take_append_drop]

theorem walk_ascent {parts : List String} (plain : ∀ part ∈ parts, Plain part)
    (place : List String) : walk (walk place parts) (ascent parts.length) = place := by
  cases parts with
  | nil => rfl
  | cons part rest => exact walk_ups plain place

/-- The way leads from one directory to the other one if no step up is wasted on a part that names no
directory. -/
theorem walk_wayBetween {here there : List String} (plain : ∀ part ∈ unshared here there, Plain part)
    (place : List String) :
    walk (walk place here) (wayBetween here there) = walk place there := by
  have start : walk place here =
      walk (walk place (there.take (sharedLead here there))) (unshared here there) := by
    rw [← walk_append, shared_append_unshared]
  rw [wayBetween, walk_append, start, walk_ascent plain, ← walk_append, List.take_append_drop]

theorem wayBetween_ne_nil (here there : List String) : wayBetween here there ≠ [] := by
  unfold wayBetween ascent
  split
  · exact List.cons_ne_nil _ _
  · rename_i some_up
    intro none
    rw [List.append_eq_nil_iff, List.replicate_eq_nil_iff] at none
    exact some_up none.1

theorem mem_wayBetween {here there : List String} {part : String}
    (h : part ∈ wayBetween here there) : part = "." ∨ part = ".." ∨ part ∈ there := by
  unfold wayBetween ascent at h
  rcases List.mem_append.mp h with up | down
  · split at up
    · exact .inl (List.mem_singleton.mp up)
    · exact .inr (.inl (List.eq_of_mem_replicate up))
  · exact .inr (.inr (List.mem_of_mem_drop down))

theorem join_ascent (steps : Nat) {rest : List String} (nonempty : rest ≠ []) :
    Text.join "/" (ascent steps ++ rest) =
      (if steps = 0 then "./" else Text.join "" (List.replicate steps "../")) ++
        Text.join "/" rest := by
  have ups (n : Nat) : Text.join "/" (List.replicate n ".." ++ rest) =
      Text.join "" (List.replicate n "../") ++ Text.join "/" rest := by
    induction n with
    | zero => simp [Text.join]
    | succ n ih =>
      rw [List.replicate_succ, List.cons_append, Text.join_cons _ _ (by simp [nonempty]), ih]
      apply String.toList_injective
      cases n with
      | zero => simp [Text.join]
      | succ n => simp [Text.join, List.replicate_succ]
  unfold ascent
  split
  · exact Text.join_cons "/" "." nonempty
  · exact ups steps

theorem relativeSpecifier_eq (importer : String) {path last : String}
    (file : moduleParts path = directory path ++ [last]) :
    relativeSpecifier importer path =
      Text.join "/" (wayBetween (directory importer) (directory path) ++ [last]) := by
  have bound : sharedLead (directory importer) (directory path) ≤ (directory path).length :=
    (sharedLead_le _ _).2
  have size : (unshared (directory importer) (directory path)).length =
      (directory importer).length - sharedLead (directory importer) (directory path) :=
    List.length_drop
  unfold relativeSpecifier
  dsimp only
  rw [← directory, file, List.dropLast_concat, List.drop_append_of_le_length bound, ← size]
  rw [wayBetween, List.append_assoc, join_ascent _ (by simp)]
  exact (apply_ite (· ++ _) _ _ _).symm

theorem pathParts_relativeSpecifier (importer : String) {path last : String}
    (file : moduleParts path = directory path ++ [last]) :
    pathParts (relativeSpecifier importer path) =
      wayBetween (directory importer) (directory path) ++ [last] := by
  have clean : ∀ part ∈ directory path ++ [last], '/' ∉ part.toList := by
    rw [← file]
    exact fun _ mem => pathParts_clean mem
  rw [relativeSpecifier_eq importer file]
  apply pathParts_join (by simp)
  intro part mem
  rcases List.mem_append.mp mem with way | own
  · rcases mem_wayBetween way with rfl | rfl | down
    · decide
    · decide
    · exact clean part (List.mem_append_left _ down)
  · exact clean part (List.mem_append_right _ own)

theorem relativeSpecifier_relative (importer path : String) :
    Text.hasLead "./" (relativeSpecifier importer path) = true ∨
      Text.hasLead "../" (relativeSpecifier importer path) = true := by
  obtain ⟨last, file⟩ := exists_moduleParts path
  rw [relativeSpecifier_eq importer file, wayBetween, List.append_assoc, join_ascent _ (by simp)]
  split
  · exact .inl (by simp [Text.hasLead])
  · rename_i some_up
    obtain ⟨n, more⟩ := Nat.exists_eq_succ_of_ne_zero some_up
    rw [more, List.replicate_succ]
    right
    cases n with
    | zero => simp [Text.hasLead, Text.join]
    | succ n => simp [Text.hasLead, Text.join, List.replicate_succ]

theorem walk_relativeSpecifier {importer path : String}
    (plain : ∀ part ∈ unshared (directory importer) (directory path), Plain part) :
    walk (walk [] (directory importer)) (pathParts (relativeSpecifier importer path)) =
      walk [] (moduleParts path) := by
  obtain ⟨last, file⟩ := exists_moduleParts path
  rw [pathParts_relativeSpecifier importer file, walk_append, walk_wayBetween plain, file,
    walk_append]

theorem relativeSpecifier_leads {importer module : String}
    (plain : ∀ part ∈ unshared (directory importer) (directory (module ++ ".ts")), Plain part) :
    Leads importer (relativeSpecifier importer (module ++ ".ts")) (module ++ ".ts") := by
  refine ⟨relativeSpecifier_relative _ _, module, rfl, ?_⟩
  rw [walk_relativeSpecifier plain, moduleParts_suffix]

end TypedClients
