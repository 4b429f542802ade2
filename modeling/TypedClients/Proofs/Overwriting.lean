import Mathlib.Data.List.Basic
import TypedClients.Proofs.Gathering

namespace TypedClients

theorem joins_last {α κ : Type} (key : α → κ) : Joins key id fun _ a => a where
  key_start _ := rfl
  key_join _ _ same := same.symm
  start_start _ := rfl
  start_join _ _ _ := rfl
  join_start _ _ _ := rfl
  join_join _ _ _ _ _ := rfl

variable {α κ : Type} [DecidableEq κ] (key : α → κ)

/-- The last of the entries under a key. -/
def lastUnder? (declared : List α) (k : κ) : Option α := declared.reverse.find? fun a => key a = k

def overwrite (a : α) : List α → List α
  | [] => [a]
  | b :: rest => if key b = key a then a :: rest else b :: overwrite a rest

variable {key} {declared merged : List α}

theorem lastUnder?_append (earlier later : List α) (k : κ) :
    lastUnder? key (earlier ++ later) k =
      (lastUnder? key later k).or (lastUnder? key earlier k) := by
  simp [lastUnder?, List.find?_append]

theorem lastUnder?_concat (earlier : List α) (a : α) (k : κ) :
    lastUnder? key (earlier ++ [a]) k = if key a = k then some a else lastUnder? key earlier k := by
  rw [lastUnder?_append]
  by_cases same : key a = k <;> simp [lastUnder?, same]

theorem lastUnder?_eq_none {k : κ} : lastUnder? key declared k = none ↔ k ∉ declared.map key := by
  simp [lastUnder?]

theorem lastUnder?_eq_some {k : κ} {a : α} (h : lastUnder? key declared k = some a) :
    a ∈ declared ∧ key a = k := by
  refine ⟨List.mem_reverse.mp (List.mem_of_find?_eq_some h), ?_⟩
  simpa using List.find?_some h

theorem overwrite_eq (a : α) (as : List α) :
    overwrite key a as = takeUp key id (fun _ a => a) a as := by
  induction as with
  | nil => rfl
  | cons b rest ih =>
    rw [overwrite, takeUp, ih]

theorem joinAll_last (k : κ) :
    joinAll id (fun _ a => a) (under key k declared) = lastUnder? key declared k := by
  induction declared using List.reverseRecOn with
  | nil => rfl
  | append_singleton earlier a ih =>
    rw [under_concat, lastUnder?_concat]
    split
    · cases given : joinAll id (fun _ a => a) (under key k earlier) with
      | none =>
        rw [joinAll_eq_none.mp given]
        rfl
      | some b => rw [joinAll_concat given]
    · exact ih

variable [BEq κ]

variable (key) in
/-- Each key where it first comes, with the entry that comes last under it. -/
def latest (declared : List α) : List α :=
  (declared.map key).eraseDups.filterMap (lastUnder? key declared)

example : latest Prod.fst [("kind", 1), ("id", 2), ("kind", 3)] = [("kind", 3), ("id", 2)] := by
  decide

variable (key) in
/-- Each key once, in its first place and with its last entry. -/
structure Overwrites (declared merged : List α) : Prop where
  keys : merged.map key = (declared.map key).eraseDups
  last : ∀ a ∈ merged, lastUnder? key declared (key a) = some a

namespace Overwrites

theorem nil : Overwrites key [] [] := ⟨rfl, nofun⟩

theorem eq_latest (h : Overwrites key declared merged) : merged = latest key declared := by
  rw [latest, ← h.keys, List.filterMap_map]
  calc merged = merged.filterMap some := List.filterMap_some.symm
    _ = merged.filterMap (lastUnder? key declared ∘ key) := by
      apply List.filterMap_congr
      intro a mem
      exact (h.last a mem).symm

theorem iff_gathers : Overwrites key declared merged ↔
    Gathers key id (fun _ a => a) declared merged := by
  constructor
  · rintro ⟨keys, last⟩
    exact ⟨keys, fun a mem => (joinAll_last _).trans (last a mem)⟩
  · rintro ⟨keys, joined⟩
    exact ⟨keys, fun a mem => (joinAll_last _).symm.trans (joined a mem)⟩

variable [LawfulBEq κ]

theorem nodup (h : Overwrites key declared merged) : (merged.map key).Nodup :=
  h.keys ▸ nodup_eraseDups _

theorem mem_keys (h : Overwrites key declared merged) {k : κ} :
    k ∈ merged.map key ↔ k ∈ declared.map key := by
  rw [h.keys, List.mem_eraseDups]

theorem put (h : Overwrites key declared merged) (a : α) :
    Overwrites key (declared ++ [a]) (overwrite key a merged) := by
  rw [overwrite_eq]
  exact iff_gathers.mpr ((joins_last key).put (iff_gathers.mp h) a)

theorem putAll (h : Overwrites key declared merged) (more : List α) :
    Overwrites key (declared ++ more) (more.foldl (fun acc a => overwrite key a acc) merged) := by
  induction more generalizing declared merged with
  | nil => simpa using h
  | cons a rest ih =>
    rw [List.append_cons]
    exact ih (h.put a)

theorem append {later more : List α} (h : Overwrites key declared merged)
    (inner : Overwrites key later more) :
    Overwrites key (declared ++ later) (more.foldl (fun acc a => overwrite key a acc) merged) := by
  have outer := h.putAll more
  have same : ∀ k, lastUnder? key more k = lastUnder? key later k := by
    intro k
    cases found : lastUnder? key more k with
    | none =>
      rw [lastUnder?_eq_none, inner.mem_keys] at found
      exact (lastUnder?_eq_none.mpr found).symm
    | some a =>
      obtain ⟨listed, rfl⟩ := lastUnder?_eq_some found
      exact (inner.last a listed).symm
  constructor
  · rw [outer.keys, List.map_append, List.map_append, inner.keys, eraseDups_append_eraseDups]
  · intro a mem
    rw [lastUnder?_append, ← same, ← lastUnder?_append]
    exact outer.last a mem

end Overwrites

end TypedClients
