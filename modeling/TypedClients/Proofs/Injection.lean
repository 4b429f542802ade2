import TypedClients.Proofs.Discriminator

namespace TypedClients

def Schema.tagAll (s : Schema) (written : List String) : List MappingEntry → Schema
  | [] => s
  | e :: rest =>
    (s.injectTag e.property e.key (!written.contains e.property)).tagAll
      (addNew written e.property) rest

def SchemaRef.tagAll (entries : List MappingEntry) : SchemaRef → SchemaRef
  | .ref path => .ref path
  | .item s => .item (s.tagAll [] entries)

namespace Arena

variable {arena other : Arena} {e : MappingEntry} {n t : String}

def entriesFor (arena : Arena) (t : String) : List MappingEntry :=
  arena.mappingEntries.filter fun e => arena.Designates e t

theorem entriesFor_eq (arena : Arena) (t : String) :
    arena.entriesFor t = arena.schemas.flatMap fun p =>
      (p.2.inlined.flatMap (Schema.mappingEntries p.1)).filter fun e => arena.Designates e t := by
  unfold entriesFor mappingEntries
  rw [List.filter_flatMap]

theorem standsFor_of_find? (same : ∀ n, other.find? n = arena.find? n) :
    other.StandsFor n t ↔ arena.StandsFor n t := by
  unfold StandsFor AliasOf
  simp only [same]

theorem designates_of_find? (same : ∀ n, other.find? n = arena.find? n) :
    other.Designates e t ↔ arena.Designates e t := by
  unfold Designates
  simp only [standsFor_of_find? same]

end Arena

namespace Injection

variable {arena : Arena} {done : List MappingEntry} {i j : Injection} {e : MappingEntry}
  {t : String} {s : Schema} {written : List String}

theorem add_total (h : i.arena.Designates e t) : ∃ j, i.add e = .ok j := by
  obtain ⟨s, stored⟩ := h.item
  unfold add
  rw [Arena.mappingTarget_eq_ok.mpr ⟨h, stored⟩]
  exact ⟨_, rfl⟩

theorem Tracks.addAll_total {entries : List MappingEntry} (h : Tracks arena done i) :
    (∃ j, i.addAll entries = .ok j) ↔ ∀ e ∈ entries, ∃ t, arena.Designates e t := by
  induction entries generalizing i done with
  | nil => exact ⟨fun _ e none => (List.not_mem_nil none).elim, fun _ => ⟨i, rfl⟩⟩
  | cons e rest ih =>
    rw [List.forall_mem_cons, addAll_cons]
    constructor
    · intro given
      obtain ⟨j, run⟩ := given
      cases step : i.add e with
      | error => rw [step] at run; cases run
      | ok next =>
        rw [step] at run
        obtain ⟨t, _, given, _⟩ := add_eq_ok step
        exact ⟨⟨t, h.designates.mp given⟩, (ih (h.add step)).mp ⟨j, run⟩⟩
    · intro given
      obtain ⟨⟨t, first⟩, later⟩ := given
      obtain ⟨next, step⟩ := add_total (h.designates.mpr first)
      rw [step]
      exact (ih (h.add step)).mpr later

/-- What the state holds under one name, and which tags it has written there. -/
structure Holds (i : Injection) (t : String) (s : Schema) (written : List String) : Prop where
  stored : i.arena.find? t = some (.item s)
  written : ∀ p, (t, p) ∈ i.written ↔ p ∈ written

theorem Holds.add_self (h : i.Holds t s written) (given : i.arena.Designates e t)
    (step : i.add e = .ok j) : j.Holds t
      (s.injectTag e.property e.key (!written.contains e.property))
      (addNew written e.property) := by
  obtain ⟨target, u, designated, stored, schemas, wrote⟩ := add_eq_ok step
  have same := designated.unique given
  subst same
  rw [h.stored] at stored
  cases stored
  have first : i.written.contains (target, e.property) = written.contains e.property := by
    rw [Bool.eq_iff_iff, List.contains_iff_mem, List.contains_iff_mem]
    exact h.written e.property
  constructor
  · unfold Arena.find?
    rw [schemas, Keyed.find?_insert_self, first]
  · intro p
    rw [wrote, mem_addNew, mem_addNew, h.written, Prod.mk.injEq]
    simp only [true_and]

theorem Holds.add_other (h : i.Holds t s written) (other : ¬ i.arena.Designates e t)
    (step : i.add e = .ok j) : j.Holds t s written := by
  obtain ⟨target, u, designated, _, schemas, wrote⟩ := add_eq_ok step
  have different : t ≠ target := by
    rintro rfl
    exact other designated
  constructor
  · unfold Arena.find?
    rw [schemas, Keyed.find?_insert_of_ne _ _ different]
    exact h.stored
  · intro p
    rw [wrote, mem_addNew, h.written, Prod.mk.injEq]
    simp only [different, false_and, or_false]

theorem Holds.addAll {entries : List MappingEntry} (h : i.Holds t s written)
    (tracks : Tracks arena done i) (run : i.addAll entries = .ok j) :
    j.arena.find? t =
      some (.item (s.tagAll written (entries.filter fun e => arena.Designates e t))) := by
  induction entries generalizing i done s written with
  | nil =>
    rw [addAll_nil] at run
    cases run
    exact h.stored
  | cons e rest ih =>
    rw [addAll_cons] at run
    cases step : i.add e with
    | error => rw [step] at run; cases run
    | ok next =>
      rw [step] at run
      have after := tracks.add step
      by_cases given : arena.Designates e t
      · rw [List.filter_cons_of_pos (by simpa using given)]
        exact ih (h.add_self (tracks.designates.mpr given) step) after run
      · rw [List.filter_cons_of_neg (by simpa using given)]
        exact ih (h.add_other (fun now => given (tracks.designates.mp now)) step) after run

end Injection

namespace Arena

variable {arena other : Arena} {i j : Injection}

theorem injectDiscriminators_total :
    (∃ i, arena.injectDiscriminators = .ok i) ↔
      ∀ e ∈ arena.mappingEntries, ∃ t, arena.Designates e t :=
  (Injection.tracks_start arena).addAll_total

theorem injectDiscriminators_find? (h : arena.injectDiscriminators = .ok i) (n : String) :
    i.arena.find? n = (arena.find? n).map (SchemaRef.tagAll (arena.entriesFor n)) := by
  have tracks := injectDiscriminators_tracks h
  have unchanged (no_item : ∀ s, arena.find? n ≠ some (.item s)) :
      i.arena.find? n = arena.find? n :=
    tracks.untouched n (Injection.no_tags_of_not_item no_item)
  cases stored : arena.find? n with
  | none => exact (unchanged (by simp [stored])).trans stored
  | some r =>
    cases r with
    | ref path => exact (unchanged (by simp [stored])).trans stored
    | item s =>
      have start : Injection.Holds ⟨arena, []⟩ n s [] :=
        ⟨stored, fun p => by simp only [List.not_mem_nil]⟩
      exact start.addAll (Injection.tracks_start arena) h

end Arena

end TypedClients
