import Mathlib.Data.List.Induction

namespace TypedClients

theorem eraseDups_concat {α : Type} [BEq α] [LawfulBEq α] (as : List α) (a : α) :
    (as ++ [a]).eraseDups = if a ∈ as then as.eraseDups else as.eraseDups ++ [a] := by
  rw [List.eraseDups_append, List.cons_removeAll]
  by_cases known : a ∈ as <;> simp [known, List.eraseDups_cons]

theorem nodup_eraseDups {α : Type} [BEq α] [LawfulBEq α] (as : List α) : as.eraseDups.Nodup := by
  induction as using List.reverseRecOn with
  | nil => simp
  | append_singleton earlier a ih =>
    rw [eraseDups_concat]
    split
    · exact ih
    · rename_i fresh
      refine List.nodup_append.mpr ⟨ih, List.pairwise_singleton _ _, fun b mem c single => ?_⟩
      rw [List.mem_singleton.mp single]
      rintro rfl
      exact fresh (List.mem_eraseDups.mp mem)

theorem eraseDups_append_eraseDups {α : Type} [BEq α] [LawfulBEq α] (as bs : List α) :
    (as ++ bs.eraseDups).eraseDups = (as ++ bs).eraseDups := by
  induction bs using List.reverseRecOn with
  | nil => simp
  | append_singleton earlier b ih =>
    rw [eraseDups_concat, ← List.append_assoc, eraseDups_concat]
    by_cases known : b ∈ earlier
    · simp [known, ih]
    · rw [if_neg known, ← List.append_assoc, eraseDups_concat, ih]
      simp

theorem eraseDups_eraseDups_append {α : Type} [BEq α] [LawfulBEq α] (as bs : List α) :
    (as.eraseDups ++ bs).eraseDups = (as ++ bs).eraseDups := by
  induction bs using List.reverseRecOn with
  | nil => simpa using eraseDups_append_eraseDups [] as
  | append_singleton earlier b ih =>
    rw [← List.append_assoc, ← List.append_assoc, eraseDups_concat, eraseDups_concat, ih]
    simp

theorem eq_of_keys {α κ : Type} {key : α → κ} {as bs : List α} (keys : as.map key = bs.map key)
    (same : ∀ a ∈ as, ∀ b ∈ bs, key a = key b → a = b) : as = bs := by
  induction as generalizing bs with
  | nil => exact (List.map_eq_nil_iff.mp keys.symm).symm
  | cons a rest ih =>
    cases bs with
    | nil => cases keys
    | cons b others =>
      obtain ⟨first, later⟩ := List.cons.inj keys
      have equal := same a List.mem_cons_self b List.mem_cons_self first
      have tail := ih later fun c left d right => same c (.tail a left) d (.tail b right)
      rw [equal, tail]

section

variable {α κ : Type} (key : α → κ) (start : α → α) (join : α → α → α)

def joinAll : List α → Option α
  | [] => none
  | a :: rest => some (rest.foldl join (start a))

structure Joins : Prop where
  key_start : ∀ a, key (start a) = key a
  key_join : ∀ b a, key b = key a → key (join b a) = key b
  start_start : ∀ a, start (start a) = start a
  start_join : ∀ b a, start b = b → start (join b a) = join b a
  join_start : ∀ z a, start z = z → join z (start a) = join z a
  join_join : ∀ z b a, start z = z → start b = b → join z (join b a) = join (join z b) a

variable {key start join} {as bs : List α} {a m : α}

theorem joinAll_cons (a : α) (rest : List α) :
    joinAll start join (a :: rest) = some (rest.foldl join (start a)) := rfl

theorem joinAll_eq_none : joinAll start join as = none ↔ as = [] := by
  cases as <;> simp [joinAll]

theorem joinAll_concat (h : joinAll start join as = some m) :
    joinAll start join (as ++ [a]) = some (join m a) := by
  cases as with
  | nil => cases h
  | cons b rest =>
    cases h
    simp [joinAll]

namespace Joins

variable (laws : Joins key start join)
include laws

theorem start_joinAll (h : joinAll start join as = some m) : start m = m := by
  induction as using List.reverseRecOn generalizing m with
  | nil => cases h
  | append_singleton earlier a ih =>
    cases given : joinAll start join earlier with
    | none =>
      rw [joinAll_eq_none.mp given] at h
      cases h
      exact laws.start_start a
    | some b =>
      rw [joinAll_concat given] at h
      cases h
      exact laws.start_join b a (ih given)

theorem join_joinAll {z : α} (settled : start z = z) (h : joinAll start join as = some m) :
    join z m = as.foldl join z := by
  induction as using List.reverseRecOn generalizing m with
  | nil => cases h
  | append_singleton earlier a ih =>
    rw [List.foldl_append, List.foldl_cons, List.foldl_nil]
    cases given : joinAll start join earlier with
    | none =>
      have first := joinAll_eq_none.mp given
      subst first
      cases h
      exact laws.join_start z a settled
    | some b =>
      rw [joinAll_concat given] at h
      cases h
      rw [laws.join_join z b a settled (laws.start_joinAll given), ih given]

theorem joinAll_append_left : joinAll start join ((joinAll start join as).toList ++ bs) =
    joinAll start join (as ++ bs) := by
  cases as with
  | nil => rfl
  | cons a rest =>
    have settled := laws.start_joinAll (joinAll_cons a rest)
    simp [joinAll, settled]

theorem joinAll_append_right : joinAll start join (as ++ (joinAll start join bs).toList) =
    joinAll start join (as ++ bs) := by
  cases given : joinAll start join bs with
  | none =>
    rw [joinAll_eq_none.mp given]
    rfl
  | some m =>
    cases as with
    | nil =>
      rw [List.nil_append, List.nil_append, given]
      exact congrArg some (laws.start_joinAll given)
    | cons a rest =>
      have settled := laws.start_joinAll (joinAll_cons a rest)
      simp [joinAll, laws.join_joinAll settled given]

end Joins

end

section

variable {α κ : Type} [DecidableEq κ] (key : α → κ) (start : α → α) (join : α → α → α)

def takeUp (a : α) : List α → List α
  | [] => [start a]
  | b :: rest => if key b = key a then join b a :: rest else b :: takeUp a rest

def gather (as : List α) : List α := as.foldl (fun acc a => takeUp key start join a acc) []

def under (k : κ) (as : List α) : List α := as.filter fun a => key a = k

variable {key start join} {as bs asked merged : List α} {a m : α} {k : κ}

theorem under_append : under key k (as ++ bs) = under key k as ++ under key k bs :=
  List.filter_append as bs

theorem under_concat : under key k (as ++ [a]) =
    if key a = k then under key k as ++ [a] else under key k as := by
  rw [under_append]
  by_cases same : key a = k <;> simp [under, same]

theorem under_eq_nil : under key k as = [] ↔ k ∉ as.map key := by
  simp [under]

theorem under_eq_singleton (distinct : (as.map key).Nodup) (mem : m ∈ as) :
    under key (key m) as = [m] := by
  induction as with
  | nil => cases mem
  | cons b rest ih =>
    obtain ⟨fresh, distinct⟩ := List.nodup_cons.mp distinct
    rcases List.mem_cons.mp mem with rfl | later
    · have others : under key (key m) rest = [] := under_eq_nil.mpr fresh
      simpa [under] using others
    · have other : key b ≠ key m := fun same => fresh (List.mem_map.mpr ⟨m, later, same.symm⟩)
      simpa [under, other] using ih distinct later

theorem mem_takeUp (distinct : (as.map key).Nodup) (mem : m ∈ takeUp key start join a as) :
    (m ∈ as ∧ key m ≠ key a) ∨ (∃ b ∈ as, key b = key a ∧ m = join b a) ∨
      (key a ∉ as.map key ∧ m = start a) := by
  induction as with
  | nil => exact .inr (.inr ⟨List.not_mem_nil, List.mem_singleton.mp mem⟩)
  | cons b rest ih =>
    obtain ⟨fresh, distinct⟩ := List.nodup_cons.mp distinct
    rw [takeUp] at mem
    split at mem
    · rename_i same
      rcases List.mem_cons.mp mem with rfl | later
      · exact .inr (.inl ⟨b, List.mem_cons_self, same, rfl⟩)
      · refine .inl ⟨List.mem_cons_of_mem _ later, fun again => fresh ?_⟩
        rw [same, ← again]
        exact List.mem_map_of_mem later
    · rename_i other
      rcases List.mem_cons.mp mem with rfl | later
      · exact .inl ⟨List.mem_cons_self, other⟩
      · rcases ih distinct later with kept | ⟨c, listed, same, joined⟩ | ⟨absent, started⟩
        · exact .inl ⟨List.mem_cons_of_mem _ kept.1, kept.2⟩
        · exact .inr (.inl ⟨c, List.mem_cons_of_mem _ listed, same, joined⟩)
        · refine .inr (.inr ⟨?_, started⟩)
          rw [List.map_cons, List.mem_cons, not_or]
          exact ⟨Ne.symm other, absent⟩

variable [BEq κ]

variable (key start join) in
/-- Each key once, in its first place and with all its entries joined. -/
structure Gathers (asked merged : List α) : Prop where
  keys : merged.map key = (asked.map key).eraseDups
  joined : ∀ m ∈ merged, joinAll start join (under key (key m) asked) = some m

namespace Joins

variable [LawfulBEq κ] (laws : Joins key start join)
include laws

theorem map_takeUp (a : α) (as : List α) : (takeUp key start join a as).map key =
    if key a ∈ as.map key then as.map key else as.map key ++ [key a] := by
  induction as with
  | nil => simp [takeUp, laws.key_start]
  | cons b rest ih =>
    rw [takeUp]
    by_cases same : key b = key a
    · simp [same, laws.key_join b a same]
    · simp only [if_neg same, List.map_cons, ih, List.mem_cons, Ne.symm same, false_or]
      split <;> rfl

theorem put (h : Gathers key start join asked merged) (a : α) :
    Gathers key start join (asked ++ [a]) (takeUp key start join a merged) := by
  have keys (k : κ) : k ∈ merged.map key ↔ k ∈ asked.map key := by
    rw [h.keys, List.mem_eraseDups]
  have distinct : (merged.map key).Nodup := h.keys ▸ nodup_eraseDups _
  constructor
  · rw [laws.map_takeUp, List.map_append, List.map_singleton, eraseDups_concat, ← h.keys]
    simp only [keys]
  · intro m mem
    rcases mem_takeUp distinct mem with ⟨listed, other⟩ | ⟨b, listed, same, rfl⟩ | ⟨fresh, rfl⟩
    · rw [under_concat, if_neg (Ne.symm other)]
      exact h.joined m listed
    · rw [laws.key_join b a same, under_concat, if_pos same.symm]
      exact joinAll_concat (h.joined b listed)
    · have none : under key (key a) asked = [] := under_eq_nil.mpr fun known =>
        fresh ((keys _).mpr known)
      rw [laws.key_start, under_concat, if_pos rfl, none]
      rfl

theorem gathers (as : List α) : Gathers key start join as (gather key start join as) := by
  induction as using List.reverseRecOn with
  | nil => exact ⟨rfl, nofun⟩
  | append_singleton earlier a ih =>
    have step := laws.put ih a
    unfold gather at step ⊢
    rwa [List.foldl_append, List.foldl_cons, List.foldl_nil]

/-- Only the order of the keys and what is asked for under each of them matters. -/
theorem gather_congr (keys : (as.map key).eraseDups = (bs.map key).eraseDups)
    (same : ∀ k, joinAll start join (under key k as) = joinAll start join (under key k bs)) :
    gather key start join as = gather key start join bs := by
  have left := laws.gathers as
  have right := laws.gathers bs
  refine eq_of_keys (left.keys.trans (keys.trans right.keys.symm)) fun a first b second shared => ?_
  have one := left.joined a first
  have other := right.joined b second
  rw [same, shared, other] at one
  exact (Option.some.inj one).symm

theorem under_gather (k : κ) (as : List α) : under key k (gather key start join as) =
    (joinAll start join (under key k as)).toList := by
  have h := laws.gathers as
  by_cases known : k ∈ as.map key
  · have listed : k ∈ (gather key start join as).map key := by
      rwa [h.keys, List.mem_eraseDups]
    obtain ⟨m, mem, rfl⟩ := List.mem_map.mp listed
    rw [h.joined m mem, under_eq_singleton (h.keys ▸ nodup_eraseDups _) mem]
    rfl
  · have absent : k ∉ (gather key start join as).map key := by
      rwa [h.keys, List.mem_eraseDups]
    rw [under_eq_nil.mpr absent, under_eq_nil.mpr known]
    rfl

theorem gather_gather_append (as bs : List α) :
    gather key start join (gather key start join as ++ bs) = gather key start join (as ++ bs) := by
  apply laws.gather_congr
  · rw [List.map_append, List.map_append, (laws.gathers as).keys, eraseDups_eraseDups_append]
  · intro k
    rw [under_append, under_append, laws.under_gather, laws.joinAll_append_left]

theorem gather_append_gather (as bs : List α) :
    gather key start join (as ++ gather key start join bs) = gather key start join (as ++ bs) := by
  apply laws.gather_congr
  · rw [List.map_append, List.map_append, (laws.gathers bs).keys, eraseDups_append_eraseDups]
  · intro k
    rw [under_append, under_append, laws.under_gather, laws.joinAll_append_right]

end Joins

end

end TypedClients
