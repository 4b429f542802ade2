import Mathlib.Logic.Function.Basic
import TypedClients.Disk.Basic
import TypedClients.Proofs.IndexFiles

namespace TypedClients

inductive Edit where
  | replace (content : String)
  | merge (lines : List String)

namespace Edit

variable {d e : Edit} {edits : List Edit}

def apply (existing : Option String) : Edit → String
  | replace content => content
  | merge lines => mergeIndex existing lines

def applyAll (edits : List Edit) (existing : Option String) : Option String :=
  edits.foldl (fun text e => some (e.apply text)) existing

def Flat : Edit → Prop
  | replace _ => True
  | merge lines => ∀ line ∈ lines, '\n' ∉ line.toList

def andThen : Edit → Edit → Edit
  | _, replace content => replace content
  | replace content, merge lines => replace (mergeIndex (some content) lines)
  | merge lines, merge more => merge (lines ++ more)

theorem andThen_flat (first : d.Flat) (next : e.Flat) : (d.andThen e).Flat := by
  cases e with
  | replace content => trivial
  | merge more =>
    cases d with
    | replace content => trivial
    | merge lines =>
      intro line mem
      rcases List.mem_append.mp mem with early | late
      · exact first line early
      · exact next line late

theorem apply_andThen (flat : d.Flat) (existing : Option String) :
    (d.andThen e).apply existing = e.apply (some (d.apply existing)) := by
  cases e with
  | replace content => rfl
  | merge more =>
    cases d with
    | replace content => rfl
    | merge lines => exact (mergeIndex_mergeIndex flat).symm

theorem apply_twice (flat : e.Flat) (existing : Option String) :
    e.apply (some (e.apply existing)) = e.apply existing := by
  rw [← apply_andThen flat]
  cases e with
  | replace content => rfl
  | merge lines => exact mergeIndex_append_self existing lines

/-- Edits of one text leave it alone or come down to one edit, whatever the text is. -/
theorem applyAll_cases (flat : ∀ e ∈ edits, e.Flat) :
    (∀ existing, applyAll edits existing = existing) ∨
      ∃ e : Edit, e.Flat ∧ ∀ existing, applyAll edits existing = some (e.apply existing) := by
  induction edits with
  | nil => exact .inl fun _ => rfl
  | cons d rest ih =>
    have first : d.Flat := flat d List.mem_cons_self
    have whole : ∀ existing,
        applyAll (d :: rest) existing = applyAll rest (some (d.apply existing)) := fun _ => rfl
    rcases ih (fun e mem => flat e (List.mem_cons_of_mem _ mem)) with idle | ⟨e, later, same⟩
    · refine .inr ⟨d, first, fun existing => ?_⟩
      rw [whole, idle]
    · refine .inr ⟨d.andThen e, andThen_flat first later, fun existing => ?_⟩
      rw [whole, same, apply_andThen first]

theorem applyAll_twice (flat : ∀ e ∈ edits, e.Flat) (existing : Option String) :
    applyAll edits (applyAll edits existing) = applyAll edits existing := by
  rcases applyAll_cases flat with idle | ⟨e, one, same⟩
  · rw [idle]
  · rw [same, same, apply_twice one]

end Edit

structure Write where
  path : String
  edit : Edit

section

variable {κ : Type} [DecidableEq κ] (place : String → κ)

namespace Write

/-- Texts under their places; several paths may lead to one place. -/
def apply (files : κ → Option String) (w : Write) : κ → Option String :=
  Function.update files (place w.path) (some (w.edit.apply (files (place w.path))))

def applyAll (writes : List Write) (files : κ → Option String) : κ → Option String :=
  writes.foldl (apply place) files

theorem applyAll_append (writes more : List Write) (files : κ → Option String) :
    applyAll place (writes ++ more) files = applyAll place more (applyAll place writes files) :=
  List.foldl_append

def editsAt (k : κ) (writes : List Write) : List Edit :=
  (writes.filter fun w => place w.path = k).map (·.edit)

theorem applyAll_at (writes : List Write) (files : κ → Option String) (k : κ) :
    applyAll place writes files k = Edit.applyAll (editsAt place k writes) (files k) := by
  induction writes generalizing files with
  | nil => rfl
  | cons w rest ih =>
    have step : applyAll place (w :: rest) files = applyAll place rest (apply place files w) := rfl
    rw [step, ih]
    by_cases here : place w.path = k
    · subst here
      simp [editsAt, apply, Edit.applyAll]
    · have other : apply place files w k = files k := Function.update_of_ne (Ne.symm here) _ _
      simp [editsAt, here, other]

theorem applyAll_twice {writes : List Write} (flat : ∀ w ∈ writes, w.edit.Flat)
    (files : κ → Option String) :
    applyAll place writes (applyAll place writes files) = applyAll place writes files := by
  funext k
  rw [applyAll_at, applyAll_at]
  apply Edit.applyAll_twice
  intro e mem
  obtain ⟨w, listed, rfl⟩ := List.mem_map.mp mem
  exact flat w (List.mem_filter.mp listed).1

end Write

def Disk.ofPlaces : Disk (StateM (κ → Option String)) where
  read path files := ((files (place path)).elim .missing .text, files)
  createDirectories _ files := (none, files)
  write path content files := (none, Function.update files (place path) (some content))

/-- A program gives a result that does not depend on the files and writes to them. -/
def Performs {α : Type} (x : StateM (κ → Option String) α) (a : α) (writes : List Write) : Prop :=
  ∀ files, x files = (a, Write.applyAll place writes files)

variable {place}

theorem Performs.pure {α : Type} (a : α) : Performs place (pure a) a [] := fun _ => rfl

omit [DecidableEq κ] in
theorem bind_apply {α β : Type} (x : StateM (κ → Option String) α)
    (f : α → StateM (κ → Option String) β) (files : κ → Option String) :
    (x >>= f) files = f (x files).1 (x files).2 := rfl

theorem Performs.bind {α β : Type} {x : StateM (κ → Option String) α}
    {f : α → StateM (κ → Option String) β} {a : α} {b : β} {writes more : List Write}
    (first : Performs place x a writes) (next : Performs place (f a) b more) :
    Performs place (x >>= f) b (writes ++ more) := by
  intro files
  rw [bind_apply, first, next, Write.applyAll_append]

theorem Performs.bind_pure {α β : Type} {x : StateM (κ → Option String) α}
    {f : α → StateM (κ → Option String) β} {a : α} {b : β} {writes : List Write}
    (first : Performs place x a writes) (last : f a = Pure.pure b) :
    Performs place (x >>= f) b writes := by
  intro files
  rw [bind_apply, first, last]
  rfl

namespace Disk

def fileWrite (root : String) (f : GeneratedFile) : Write :=
  ⟨Path.join root f.path, .replace f.content⟩

def indexWrite (root : String) (incremental : Bool) (index : IndexFile) : Write :=
  ⟨Path.join root index.path,
    if incremental then .merge index.lines else .replace (mergeIndex none index.lines)⟩

theorem indexWrite_flat {index : IndexFile} (flat : ∀ line ∈ index.lines, '\n' ∉ line.toList)
    (root : String) (incremental : Bool) : (indexWrite root incremental index).edit.Flat := by
  cases incremental with
  | false => trivial
  | true => exact flat

variable (place)

theorem writeFile_performs (root : String) (f : GeneratedFile) :
    Performs place ((ofPlaces place).writeFile root f) (.ok ()) [fileWrite root f] := by
  intro files
  unfold writeFile ensureParent
  cases Path.parent? (Path.join root f.path) with
  | none => rfl
  | some parent => rfl

theorem writeFiles_performs (root : String) (generated : List GeneratedFile) :
    Performs place ((ofPlaces place).writeFiles root generated) (.ok ())
      (generated.map (fileWrite root)) := by
  induction generated with
  | nil => exact .pure _
  | cons f rest ih => exact .bind (writeFile_performs place root f) ih

theorem existingIndex_ofPlaces (path : String) (incremental : Bool) (files : κ → Option String) :
    (ofPlaces place).existingIndex path incremental files =
      (.ok (if incremental then files (place path) else none), files) := by
  cases incremental with
  | false => rfl
  | true =>
    have read : (ofPlaces place).read path files =
        ((files (place path)).elim .missing .text, files) := rfl
    unfold existingIndex
    rw [if_pos rfl, if_pos rfl, bind_apply, read]
    cases files (place path) with
    | none => rfl
    | some text => rfl

theorem writeIndex_performs (root : String) (index : IndexFile) (incremental : Bool) :
    Performs place ((ofPlaces place).writeIndex root index incremental) (.ok ())
      [indexWrite root incremental index] := by
  intro files
  have written := fun existing => writeFile_performs place root
    ⟨index.path, mergeIndex existing index.lines⟩ files
  unfold writeIndex
  rw [bind_apply, existingIndex_ofPlaces]
  cases incremental with
  | false => exact written none
  | true => exact written (files (place (Path.join root index.path)))

theorem writeIndexes_performs (root : String) (incremental : Bool) (indexes : List IndexFile) :
    Performs place ((ofPlaces place).writeIndexes root incremental indexes) (.ok ())
      (indexes.map (indexWrite root incremental)) := by
  induction indexes with
  | nil => exact .pure _
  | cons index rest ih => exact .bind (writeIndex_performs place root index incremental) ih

end Disk

end

end TypedClients
