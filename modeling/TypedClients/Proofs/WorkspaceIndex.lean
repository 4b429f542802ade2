import Mathlib.Algebra.Ring.Int.Defs
import Mathlib.Data.List.Forall2
import TypedClients.CommandLine.Workspace
import TypedClients.Proofs.Specifiers
import TypedClients.Proofs.Lines

namespace TypedClients

/-- The directories that were entered and are not left, less those above the start. -/
def altitude (place : List String) : Int := (place.map fun d => if d = ".." then -1 else 1).sum

def rise (part : String) : Int := if part = "" ∨ part = "." then 0 else if part = ".." then -1 else 1

theorem rise_le (part : String) : rise part ≤ 1 := by
  unfold rise
  split
  · decide
  · split <;> decide

theorem rise_eq_one {part : String} : rise part = 1 ↔ Plain part := by
  unfold rise
  constructor
  · intro one
    split at one
    · cases one
    · rename_i named
      split at one
      · cases one
      · rename_i down
        exact ⟨fun none => named (.inl none), fun here => named (.inr here), down⟩
  · intro plain
    simp [plain.nonempty, plain.here, plain.up]

theorem altitude_walkStep (place : List String) (part : String) :
    altitude (walkStep place part) = altitude place + rise part := by
  unfold walkStep rise
  split
  · exact (Int.add_zero _).symm
  · split
    · cases place with
      | nil => rfl
      | cons last above =>
        dsimp only
        split
        · rename_i outside
          simp only [altitude, outside, List.map_cons, List.sum_cons, if_true]
          omega
        · rename_i inside
          simp only [altitude, inside, List.map_cons, List.sum_cons, if_false]
          omega
    · rename_i down
      simp only [altitude, down, List.map_cons, List.sum_cons, if_false]
      omega

theorem altitude_walk (place parts : List String) :
    altitude (walk place parts) = altitude place + (parts.map rise).sum := by
  induction parts generalizing place with
  | nil => exact (Int.add_zero _).symm
  | cons part rest ih =>
    have first := altitude_walkStep place part
    have later := ih (walkStep place part)
    rw [List.map_cons, List.sum_cons, ← Int.add_assoc, ← first, ← later]
    rfl

theorem plain_of_rise {parts : List String} (h : (parts.map rise).sum = parts.length) :
    ∀ part ∈ parts, Plain part := by
  have bound (ps : List String) : (ps.map rise).sum ≤ ps.length := by
    induction ps with
    | nil => exact Int.le_refl _
    | cons part rest ih =>
      have first := rise_le part
      simp only [List.map_cons, List.sum_cons, List.length_cons]
      omega
  induction parts with
  | nil => exact fun _ none => by cases none
  | cons part rest ih =>
    have first := rise_le part
    have others := bound rest
    simp only [List.map_cons, List.sum_cons, List.length_cons] at h
    intro d mem
    rcases List.mem_cons.mp mem with rfl | later
    · exact rise_eq_one.mp (by omega)
    · exact ih (by omega) d later

theorem sum_rise_ascent (steps : Nat) : ((ascent steps).map rise).sum = -steps := by
  induction steps with
  | zero => decide
  | succ n ih =>
    have ups : ascent (n + 1) = ".." :: List.replicate n ".." := by
      rw [ascent, if_neg (Nat.succ_ne_zero n), List.replicate_succ]
    have rest : ((List.replicate n "..").map rise).sum = -n := by
      unfold ascent at ih
      split at ih
      · rename_i none
        subst none
        decide
      · exact ih
    have up : rise ".." = -1 := by decide
    rw [ups, List.map_cons, List.sum_cons, rest, up]
    omega

/-- A way between directories leads from one to the other just when every step up leaves a directory
of its own. -/
theorem walk_wayBetween_iff {here there : List String} :
    walk (walk [] here) (wayBetween here there) = walk [] there ↔
      ∀ part ∈ unshared here there, Plain part := by
  refine ⟨fun same => plain_of_rise ?_, fun plain => walk_wayBetween plain []⟩
  have high := congrArg altitude same
  have start := shared_append_unshared here there
  have target := List.take_append_drop (sharedLead here there) there
  have from_start : (here.map rise).sum =
      ((there.take (sharedLead here there)).map rise).sum +
        ((unshared here there).map rise).sum := by
    rw [← List.sum_append, ← List.map_append, start]
  have to_target : (there.map rise).sum =
      ((there.take (sharedLead here there)).map rise).sum +
        ((there.drop (sharedLead here there)).map rise).sum := by
    rw [← List.sum_append, ← List.map_append, target]
  rw [altitude_walk, altitude_walk, altitude_walk, wayBetween, List.map_append, List.sum_append,
    sum_rise_ascent, from_start, to_target] at high
  omega

namespace CommandLine

theorem dropLeads_of_none {cs : List Char} (none : ¬ ['.', '/'] <+: cs) (n : Nat) :
    dropLeads ['.', '/'] n cs = cs := by
  cases n with
  | zero => rfl
  | succ n => exact if_neg fun lead => none (List.isPrefixOf_iff_prefix.mp lead)

theorem dropLeads_succ {n : Nat} {cs : List Char} (enough : cs.length ≤ n) :
    dropLeads ['.', '/'] (n + 1) cs = dropLeads ['.', '/'] n cs := by
  by_cases lead : ['.', '/'] <+: cs
  · induction n generalizing cs with
    | zero =>
      cases List.length_eq_zero_iff.mp (Nat.le_zero.mp enough)
      rfl
    | succ n ih =>
      obtain ⟨rest, rfl⟩ := lead
      show dropLeads ['.', '/'] (n + 1) rest = dropLeads ['.', '/'] n rest
      have shorter : rest.length ≤ n := by
        simp only [List.length_append, List.length_cons, List.length_nil] at enough
        omega
      by_cases again : ['.', '/'] <+: rest
      · exact ih shorter again
      · rw [dropLeads_of_none again, dropLeads_of_none again]
  · rw [dropLeads_of_none lead, dropLeads_of_none lead]

theorem dropLeads_slash {n : Nat} {cs : List Char} (enough : cs.length ≤ n) :
    dropLeads ['.', '/'] (n + 1) (cs ++ ['/']) =
      if dropLeads ['.', '/'] n cs = ['.'] then [] else dropLeads ['.', '/'] n cs ++ ['/'] := by
  induction n generalizing cs with
  | zero =>
    cases List.length_eq_zero_iff.mp (Nat.le_zero.mp enough)
    rfl
  | succ n ih =>
    by_cases lead : ['.', '/'] <+: cs
    · obtain ⟨rest, rfl⟩ := lead
      have shorter : rest.length ≤ n := by
        simp only [List.length_append, List.length_cons, List.length_nil] at enough
        omega
      exact ih shorter
    · rw [dropLeads_of_none lead]
      split
      · rename_i dot
        subst dot
        rfl
      · rename_i other
        apply dropLeads_of_none
        rintro ⟨rest, whole⟩
        match cs, lead with
        | [], _ => cases whole
        | [c], _ =>
          cases whole
          exact other rfl
        | c :: d :: more, lead =>
          cases whole
          exact lead ⟨more, rfl⟩

theorem normalDirectory_lead (s : String) : normalDirectory ("./" ++ s) = normalDirectory s := by
  have size : ("./" ++ s).length = s.length + 2 := by
    rw [String.length_append, Nat.add_comm]
    rfl
  have chars : dropLeads ['.', '/'] ("./" ++ s).length ("./" ++ s).toList =
      dropLeads ['.', '/'] s.length s.toList := by
    rw [size, String.toList_append]
    have settled : dropLeads ['.', '/'] (s.length + 1) s.toList =
        dropLeads ['.', '/'] s.length s.toList := dropLeads_succ (Nat.le_of_eq String.length_toList)
    exact settled
  unfold normalDirectory
  rw [chars]

theorem normalDirectory_slash (s : String) : normalDirectory (s ++ "/") = normalDirectory s := by
  have size : (s ++ "/").length = s.length + 1 := by
    rw [String.length_append]
    rfl
  have chars : dropLeads ['.', '/'] (s ++ "/").length (s ++ "/").toList =
      if dropLeads ['.', '/'] s.length s.toList = ['.'] then []
        else dropLeads ['.', '/'] s.length s.toList ++ ['/'] := by
    rw [size, String.toList_append]
    exact dropLeads_slash (Nat.le_of_eq String.length_toList)
  unfold normalDirectory
  rw [chars]
  split
  · rename_i dot
    rw [dot]
    decide
  · dsimp only
    rw [Text.trimEnd_eq, Text.trimEnd_eq, List.rdropWhile_concat_pos _ _ _ (by decide)]

theorem normalDirectory_eq {s : String} (nonempty : s ≠ "") (lead : ¬ ['.', '/'] <+: s.toList)
    (tail : ¬ ['/'] <:+ s.toList) : normalDirectory s = s := by
  have kept : Text.trimEnd (· == '/') s.toList = s.toList := by
    rw [Text.trimEnd_eq, List.rdropWhile_eq_self_iff]
    intro some_char slash
    apply tail
    have last : s.toList.getLast some_char = '/' := by simpa using slash
    exact ⟨s.toList.dropLast, last ▸ List.dropLast_concat_getLast some_char⟩
  unfold normalDirectory
  dsimp only
  rw [dropLeads_of_none lead, kept, String.ofList_toList, if_neg nonempty]

theorem directory_induction {P : String → Prop} (lead : ∀ s, P s → P ("./" ++ s))
    (slash : ∀ s, P s → P (s ++ "/")) (normal : ∀ s, normalDirectory s = s → P s)
    (empty : P "") (s : String) : P s := by
  induction size : s.length using Nat.strong_induction_on generalizing s with
  | _ n ih =>
    subst size
    by_cases leads : ['.', '/'] <+: s.toList
    · obtain ⟨rest, whole⟩ := leads
      have same : s = "./" ++ String.ofList rest := by
        apply String.toList_injective
        rw [← whole]
        simp
      rw [same]
      refine lead _ (ih _ ?_ _ rfl)
      rw [← String.length_toList, ← String.length_toList (s := s), ← whole]
      simp only [String.toList_ofList, List.length_append, List.length_cons, List.length_nil]
      omega
    · by_cases trails : ['/'] <:+ s.toList
      · obtain ⟨rest, whole⟩ := trails
        have same : s = String.ofList rest ++ "/" := by
          apply String.toList_injective
          rw [← whole]
          simp
        rw [same]
        refine slash _ (ih _ ?_ _ rfl)
        rw [← String.length_toList, ← String.length_toList (s := s), ← whole]
        simp
      · by_cases nonempty : s = ""
        · rw [nonempty]
          exact empty
        · exact normal s (normalDirectory_eq nonempty leads trails)

theorem walk_normalDirectory (s : String) (place : List String) :
    walk place (pathParts (normalDirectory s)) = walk place (pathParts s) := by
  induction s using directory_induction generalizing place with
  | lead s ih =>
    have dot : pathParts "." = ["."] := pathParts_flat (by decide)
    have parts : pathParts ("./" ++ s) = "." :: pathParts s := by
      have whole : "./" ++ s = "." ++ "/" ++ s := rfl
      rw [whole, pathParts_slash, dot]
      rfl
    rw [normalDirectory_lead, ih, parts]
    rfl
  | slash s ih =>
    have parts : pathParts (s ++ "/") = pathParts s ++ [""] := by
      have whole : s ++ "/" = s ++ "/" ++ "" := (String.append_empty).symm
      rw [whole, pathParts_slash]
      rfl
    rw [normalDirectory_slash, ih, parts, walk_append]
    rfl
  | normal s same => rw [same]
  | empty => rfl

/-- The text is for the directory that is reached by entering these, one after the other. -/
inductive Spells : List String → String → Prop
  | here : Spells [] "."
  | names {s : String} (h : ∀ part ∈ pathParts s, Plain part) : Spells (pathParts s) s
  | lead {dirs : List String} {s : String} (h : Spells dirs s) : Spells dirs ("./" ++ s)
  | slash {dirs : List String} {s : String} (h : Spells dirs s) : Spells dirs (s ++ "/")

theorem normalDirectory_names {s : String} (h : ∀ part ∈ pathParts s, Plain part) :
    normalDirectory s = s := by
  apply normalDirectory_eq
  · rintro rfl
    exact (h "" (by decide)).nonempty rfl
  · rintro ⟨rest, whole⟩
    have same : s = "." ++ "/" ++ String.ofList rest := by
      apply String.toList_injective
      rw [← whole]
      simp
    have dot : pathParts "." = ["."] := pathParts_flat (by decide)
    rw [same, pathParts_slash, dot] at h
    exact (h "." List.mem_cons_self).here rfl
  · rintro ⟨rest, whole⟩
    have same : s = String.ofList rest ++ "/" ++ "" := by
      apply String.toList_injective
      rw [← whole]
      simp
    have none : pathParts "" = [""] := rfl
    rw [same, pathParts_slash, none] at h
    exact (h "" (by simp)).nonempty rfl

theorem Spells.normal {dirs : List String} {s : String} (h : Spells dirs s) :
    (dirs = [] ∧ normalDirectory s = ".") ∨
      (dirs ≠ [] ∧ pathParts (normalDirectory s) = dirs ∧ ∀ part ∈ dirs, Plain part) := by
  induction h with
  | here => exact .inl ⟨rfl, by decide⟩
  | names h => exact .inr ⟨pathParts_ne_nil _, by rw [normalDirectory_names h], h⟩
  | lead _ ih => rwa [normalDirectory_lead]
  | slash _ ih => rwa [normalDirectory_slash]

def exported (specifier : String) : String := "export * from '" ++ specifier ++ "';"

theorem exportLine_index (here there : String) :
    exportLine (here ++ "/index.ts") (there ++ "/index.ts") =
      exported (Text.join "/" (wayBetween (pathParts here) (pathParts there))) := by
  have inside (s : String) : s ++ "/index.ts" = s ++ "/" ++ "index.ts" := by
    rw [String.append_assoc]
    rfl
  have place (s : String) : directory (s ++ "/index.ts") = pathParts s := by
    rw [inside, directory_slash (by decide)]
  have file : moduleParts (there ++ "/index.ts") =
      directory (there ++ "/index.ts") ++ ["index"] := by
    have whole : there ++ "/index.ts" = there ++ "/" ++ "index" ++ ".ts" := by
      rw [String.append_assoc, String.append_assoc]
      rfl
    have flat : pathParts "index" = ["index"] := pathParts_flat (by decide)
    rw [place, whole, moduleParts_suffix, pathParts_slash, flat]
  have specifier : relativeSpecifier (here ++ "/index.ts") (there ++ "/index.ts") =
      Text.join "/" (wayBetween (pathParts here) (pathParts there)) ++ "/index" := by
    rw [relativeSpecifier_eq _ file, place, place]
    unfold Text.join
    rw [String.intercalate_append_of_ne_nil (wayBetween_ne_nil _ _) (List.cons_ne_nil _ _),
      String.intercalate_singleton, String.append_assoc]
    rfl
  unfold exportLine
  dsimp only
  rw [specifier, beforeTail?_append]
  rfl

/-- In the workspace's index the specifier is for the output directory. -/
def Designates (workspace specifier output : String) : Prop :=
  walk (walk [] (pathParts workspace)) (pathParts specifier) = walk [] (pathParts output)

def IsDotted (specifier : String) : Prop :=
  ∃ rest, pathParts specifier = "." :: rest ∨ pathParts specifier = ".." :: rest

theorem pathParts_join_wayBetween (here : List String) (there : String) :
    pathParts (Text.join "/" (wayBetween here (pathParts there))) =
      wayBetween here (pathParts there) := by
  apply pathParts_join (wayBetween_ne_nil _ _)
  intro part mem
  rcases mem_wayBetween mem with rfl | rfl | down
  · decide
  · decide
  · exact pathParts_clean down

theorem isDotted_wayBetween (here : List String) (there : String) :
    IsDotted (Text.join "/" (wayBetween here (pathParts there))) := by
  rw [IsDotted, pathParts_join_wayBetween, wayBetween, ascent]
  split
  · exact ⟨_, .inl rfl⟩
  · rename_i some_up
    obtain ⟨n, more⟩ := Nat.exists_eq_succ_of_ne_zero some_up
    rw [more, List.replicate_succ]
    exact ⟨_, .inr rfl⟩

theorem designates_iff {workspace output : String} :
    Designates workspace (Text.join "/" (wayBetween (pathParts (normalDirectory workspace))
        (pathParts (normalDirectory output)))) output ↔
      ∀ part ∈ unshared (pathParts (normalDirectory workspace))
        (pathParts (normalDirectory output)), Plain part := by
  rw [Designates, pathParts_join_wayBetween, ← walk_normalDirectory workspace,
    ← walk_normalDirectory output]
  exact walk_wayBetween_iff

/-- A directory below the current one shares what it has to with every other one; the current one is
spelled by a dot, which is no name and which no other directory begins with. -/
theorem unshared_plain_iff {home place : List String} {workspace output : String}
    (at_home : Spells home workspace) (at_place : Spells place output) :
    (∀ part ∈ unshared (pathParts (normalDirectory workspace))
      (pathParts (normalDirectory output)), Plain part) ↔ home ≠ [] ∨ place = [] := by
  have dot : pathParts "." = ["."] := pathParts_flat (by decide)
  rcases at_home.normal with ⟨rfl, same⟩ | ⟨named, parts, plain⟩
  · rw [same, dot]
    rcases at_place.normal with ⟨rfl, same⟩ | ⟨other, parts, plain⟩
    · rw [same, dot]
      simp [unshared, sharedLead]
    · obtain ⟨first, rest, rfl⟩ := List.exists_cons_of_ne_nil other
      have away : "." ≠ first := fun same => (plain first List.mem_cons_self).here same.symm
      rw [parts]
      refine iff_of_false (fun all => ?_) (by simp)
      refine (all "." ?_).here rfl
      simp [unshared, sharedLead, away]
  · rw [parts]
    exact iff_of_true (fun part mem => plain part (List.mem_of_mem_drop mem)) (.inl named)

/-- The index of a workspace has a line for each target with an index, in order. Its specifier leads
from the workspace to the output directory of the target just when every part of the workspace's
directory that is not shared with the output is a name. So every line is right if the workspace lies
below the current directory; in the current directory itself only the line of a target that lies
there too is right. -/
theorem workspaceIndex_designates (workspace : String) (targets : List Target) :
    ∃ specifiers, (workspaceIndex workspace targets).lines = specifiers.map exported ∧
      List.Forall₂ (fun (t : Target) s => IsDotted s ∧
        (Designates workspace s t.output ↔
          ∀ part ∈ unshared (pathParts (normalDirectory workspace))
            (pathParts (normalDirectory t.output)), Plain part) ∧
        ∀ home place, Spells home workspace → Spells place t.output →
          (Designates workspace s t.output ↔ home ≠ [] ∨ place = []))
        (targets.filter (·.index)) specifiers := by
  refine ⟨(targets.filter (·.index)).map fun t => Text.join "/" (wayBetween
    (pathParts (normalDirectory workspace)) (pathParts (normalDirectory t.output))), ?_, ?_⟩
  · unfold workspaceIndex
    rw [List.map_map]
    apply List.map_congr_left
    intro t _
    exact exportLine_index _ _
  · rw [List.forall₂_map_right_iff, List.forall₂_same]
    intro t _
    refine ⟨isDotted_wayBetween _ _, designates_iff, fun home place at_home at_place => ?_⟩
    rw [designates_iff]
    exact unshared_plain_iff at_home at_place

/-- The workspace is the current directory, and the output lies below it. -/
theorem workspaceIndex_designates_here :
    (workspaceIndex "." [{ output := "./out/" }]).lines = [exported "../out"] ∧
    Spells [] "." ∧ Spells ["out"] "./out/" ∧ ¬ Designates "." "../out" "./out/" := by
  have out : Spells ["out"] "./out/" := by
    have name : Spells (pathParts "out") "out" := .names (by decide)
    have parts : pathParts "out" = ["out"] := by decide
    exact parts ▸ name.lead.slash
  have written : (workspaceIndex "." [{ output := "./out/" }]).lines = [exported "../out"] := by
    decide
  obtain ⟨specifiers, lines, each⟩ := workspaceIndex_designates "." [{ output := "./out/" }]
  cases each with
  | @cons t specifier _ rest first others =>
    cases others
    rw [written, List.map_singleton, List.singleton_inj] at lines
    have same : "../out" = specifier := by
      unfold exported at lines
      rwa [String.append_left_inj, String.append_right_inj] at lines
    subst same
    refine ⟨written, .here, out, fun there => ?_⟩
    simpa using (first.2.2 [] ["out"] .here out).mp there

end CommandLine

end TypedClients
