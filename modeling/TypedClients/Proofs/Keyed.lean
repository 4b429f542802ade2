import Mathlib.Data.List.Sort
import TypedClients.Keyed

namespace TypedClients

namespace Keyed

variable {α β : Type}

theorem contains_iff_mem_keys {key : String} {pairs : List (String × α)} :
    contains key pairs = true ↔ key ∈ keys pairs := by
  rw [contains_iff_mem]
  simp [keys]

theorem mem_keys {p : String × α} {pairs : List (String × α)} (h : p ∈ pairs) :
    p.1 ∈ keys pairs := List.mem_map_of_mem h

theorem mem_keys_of_find? {key : String} {v : α} {pairs : List (String × α)}
    (h : find? key pairs = some v) : key ∈ keys pairs :=
  contains_iff_mem_keys.mp (contains_iff_mem.mpr ⟨v, mem_of_find? h⟩)

theorem find?_of_mem_keys {key : String} {pairs : List (String × α)} (h : key ∈ keys pairs) :
    ∃ v, find? key pairs = some v :=
  Option.isSome_iff_exists.mp (contains_iff_mem_keys.mpr h)

theorem find?_eq_none {key : String} {pairs : List (String × α)} :
    find? key pairs = none ↔ key ∉ keys pairs := by
  rw [← contains_iff_mem_keys, contains, Option.not_isSome_iff_eq_none]

theorem find?_append (key : String) (pairs others : List (String × α)) :
    find? key (pairs ++ others) = (find? key pairs).or (find? key others) := by
  induction pairs with
  | nil => rfl
  | cons p rest ih =>
    obtain ⟨k, v⟩ := p
    by_cases hk : k = key
    · simp [find?, hk]
    · simp [find?, hk, ih]

theorem find?_insert_self (key : String) (v : α) (pairs : List (String × α)) :
    find? key (insert key v pairs) = some v := by
  induction pairs with
  | nil => simp [insert, find?]
  | cons p rest ih =>
    obtain ⟨k, w⟩ := p
    by_cases hk : k = key
    · simp [insert, find?, hk]
    · simp [insert, find?, hk, ih]

theorem find?_insert_of_ne {key other : String} (v : α) (pairs : List (String × α))
    (h : other ≠ key) : find? other (insert key v pairs) = find? other pairs := by
  induction pairs with
  | nil => simp [insert, find?, h.symm]
  | cons p rest ih =>
    obtain ⟨k, w⟩ := p
    by_cases hk : k = key
    · subst hk
      simp [insert, find?, h.symm]
    · simp only [insert, hk, if_false, find?, ih]

theorem getElem?_insert_of_ne {key other : String} {w : α} (v : α) {pairs : List (String × α)}
    {k : Nat} (stored : pairs[k]? = some (other, w)) (h : other ≠ key) :
    (insert key v pairs)[k]? = some (other, w) := by
  induction pairs generalizing k with
  | nil => cases stored
  | cons p rest ih =>
    obtain ⟨first, u⟩ := p
    cases k with
    | zero =>
      cases stored
      simp [insert, h]
    | succ k =>
      rw [List.getElem?_cons_succ] at stored
      by_cases same : first = key
      · simp [insert, same, stored]
      · simpa [insert, same] using ih stored

theorem keys_insert (key : String) (v : α) (pairs : List (String × α)) :
    keys (insert key v pairs) =
      if key ∈ keys pairs then keys pairs else keys pairs ++ [key] := by
  induction pairs with
  | nil => simp [insert, keys]
  | cons p rest ih =>
    obtain ⟨k, w⟩ := p
    by_cases hk : k = key
    · simp [insert, keys, hk]
    · simp only [keys, List.map_cons, insert, hk, if_false, List.mem_cons,
        Ne.symm hk, false_or] at ih ⊢
      rw [ih]
      by_cases known : key ∈ rest.map Prod.fst <;> simp [known]

theorem mem_insert {key : String} {v : α} {pairs : List (String × α)} {p : String × α}
    (h : p ∈ insert key v pairs) : p = (key, v) ∨ p ∈ pairs := by
  induction pairs with
  | nil => exact .inl (List.mem_singleton.mp h)
  | cons q rest ih =>
    obtain ⟨k, w⟩ := q
    simp only [insert] at h
    split at h
    · rename_i hk
      subst hk
      rcases List.mem_cons.mp h with h | h
      · exact .inl h
      · exact .inr (List.mem_cons_of_mem _ h)
    · rcases List.mem_cons.mp h with h | h
      · exact .inr (h ▸ List.mem_cons_self)
      · exact (ih h).imp id (List.mem_cons_of_mem _)

theorem find?_filter (keep : String → Bool) (key : String) (pairs : List (String × α)) :
    find? key (pairs.filter fun p => keep p.1) = if keep key then find? key pairs else none := by
  induction pairs with
  | nil => simp [find?]
  | cons p rest ih =>
    obtain ⟨k, w⟩ := p
    by_cases same : k = key
    · subst same
      by_cases kept : keep k <;> simp [find?, kept, ih]
    · by_cases kept : keep k <;> simp [find?, kept, same, ih]

theorem find?_erase_of_ne {key other : String} (pairs : List (String × α)) (h : other ≠ key) :
    find? other (erase key pairs) = find? other pairs := by
  have kept : (other != key) = true := by simpa using h
  exact (find?_filter (fun k => k != key) other pairs).trans (if_pos kept)

theorem find?_erase_self (key : String) (pairs : List (String × α)) :
    find? key (erase key pairs) = none := by
  have gone : ¬(key != key) = true := by simp
  exact (find?_filter (fun k => k != key) key pairs).trans (if_neg gone)

theorem find?_of_find?_erase {key other : String} {v : α} {pairs : List (String × α)}
    (h : find? other (erase key pairs) = some v) : find? other pairs = some v := by
  by_cases same : other = key
  · subst same
    rw [find?_erase_self] at h
    cases h
  · rwa [find?_erase_of_ne pairs same] at h

theorem find?_insertSorted_self (key : String) (v : α) (pairs : List (String × α)) :
    find? key (insertSorted key v pairs) = some v := by
  induction pairs with
  | nil => simp [insertSorted, find?]
  | cons p rest ih =>
    obtain ⟨k, w⟩ := p
    simp only [insertSorted]
    split
    · simp [find?, *]
    · split
      · simp [find?]
      · simp [find?, *]

theorem find?_insertSorted_of_ne {key other : String} (v : α) (pairs : List (String × α))
    (h : other ≠ key) : find? other (insertSorted key v pairs) = find? other pairs := by
  induction pairs with
  | nil => simp [insertSorted, find?, h.symm]
  | cons p rest ih =>
    obtain ⟨k, w⟩ := p
    simp only [insertSorted]
    split
    · rename_i same
      subst same
      simp [find?, h.symm]
    · split
      · simp [find?, h.symm]
      · simp only [find?, ih]

theorem mem_insertSorted {key : String} {v : α} {pairs : List (String × α)} {p : String × α}
    (h : p ∈ insertSorted key v pairs) : p = (key, v) ∨ p ∈ pairs := by
  induction pairs with
  | nil => exact .inl (List.mem_singleton.mp h)
  | cons q rest ih =>
    simp only [insertSorted] at h
    split at h
    · rename_i same
      subst same
      exact (List.mem_cons.mp h).imp id (List.mem_cons_of_mem _)
    · split at h
      · exact List.mem_cons.mp h
      · rcases List.mem_cons.mp h with here | later
        · exact .inr (here ▸ List.mem_cons_self)
        · exact (ih later).imp id (List.mem_cons_of_mem _)

theorem mem_insertSorted_of_ne {key : String} {v : α} {pairs : List (String × α)} {p : String × α}
    (listed : p ∈ pairs) (h : p.1 ≠ key) : p ∈ insertSorted key v pairs := by
  induction pairs with
  | nil => cases listed
  | cons q rest ih =>
    obtain ⟨k, w⟩ := q
    simp only [insertSorted]
    split
    · rename_i same
      rcases List.mem_cons.mp listed with rfl | later
      · exact absurd same h
      · exact List.mem_cons_of_mem _ later
    · split
      · exact List.mem_cons_of_mem _ listed
      · rcases List.mem_cons.mp listed with rfl | later
        · exact List.mem_cons_self
        · exact List.mem_cons_of_mem _ (ih later)

theorem find?_sortedOfList (key : String) (pairs : List (String × α)) :
    find? key (sortedOfList pairs) = find? key pairs.reverse := by
  unfold sortedOfList
  rw [List.foldl_eq_foldr_reverse]
  induction pairs.reverse with
  | nil => rfl
  | cons p rest ih =>
    rw [List.foldr_cons]
    by_cases same : p.1 = key
    · subst same
      simp [find?, find?_insertSorted_self]
    · rw [find?_insertSorted_of_ne _ _ (Ne.symm same), ih]
      simp [find?, same]

theorem mem_sortedOfList {pairs : List (String × α)} {p : String × α}
    (h : p ∈ sortedOfList pairs) : p ∈ pairs := by
  rw [← List.mem_reverse]
  unfold sortedOfList at h
  rw [List.foldl_eq_foldr_reverse] at h
  generalize pairs.reverse = latest at h ⊢
  induction latest with
  | nil => cases h
  | cons q rest ih =>
    rcases mem_insertSorted h with rfl | later
    · exact List.mem_cons_self
    · exact List.mem_cons_of_mem _ (ih later)

theorem nodup_keys_insert {key : String} {v : α} {pairs : List (String × α)}
    (h : (keys pairs).Nodup) : (keys (insert key v pairs)).Nodup := by
  rw [keys_insert]
  split
  · exact h
  · rename_i fresh
    rw [List.nodup_append]
    refine ⟨h, List.nodup_singleton key, fun k mem other last same => ?_⟩
    rw [same, List.mem_singleton.mp last] at mem
    exact fresh mem

theorem nodup_keys_insertAll {pairs more : List (String × α)} (h : (keys pairs).Nodup) :
    (keys (insertAll pairs more)).Nodup := by
  induction more generalizing pairs with
  | nil => exact h
  | cons p rest ih => exact ih (nodup_keys_insert h)

theorem nodup_keys_ofList (pairs : List (String × α)) : (keys (ofList pairs)).Nodup :=
  nodup_keys_insertAll .nil

theorem keys_insertAll (pairs more : List (String × α)) (key : String) :
    key ∈ keys (insertAll pairs more) ↔ key ∈ keys pairs ∨ key ∈ keys more := by
  induction more generalizing pairs with
  | nil => simp [insertAll, keys]
  | cons p rest ih =>
    obtain ⟨k, v⟩ := p
    have step : key ∈ keys (insert k v pairs) ↔ key ∈ keys pairs ∨ key = k := by
      rw [keys_insert]
      split
      · constructor
        · exact .inl
        · intro given
          rcases given with h | rfl
          · exact h
          · assumption
      · simp
    have rest := ih (insert k v pairs)
    simp only [insertAll, List.foldl_cons] at rest ⊢
    rw [rest, step]
    simp only [keys, List.map_cons, List.mem_cons]
    tauto

theorem mem_insertAll {pairs more : List (String × α)} {p : String × α}
    (h : p ∈ insertAll pairs more) : p ∈ pairs ∨ p ∈ more := by
  induction more generalizing pairs with
  | nil => exact .inl h
  | cons q rest ih =>
    rcases ih h with earlier | later
    · rcases mem_insert earlier with here | before
      · exact .inr (here ▸ List.mem_cons_self)
      · exact .inl before
    · exact .inr (List.mem_cons_of_mem _ later)

theorem find?_of_mem {key : String} {v : α} {pairs : List (String × α)}
    (distinct : (keys pairs).Nodup) (h : (key, v) ∈ pairs) : find? key pairs = some v := by
  induction pairs with
  | nil => cases h
  | cons p rest ih =>
    obtain ⟨k, w⟩ := p
    obtain ⟨fresh, rest_distinct⟩ : k ∉ keys rest ∧ (keys rest).Nodup :=
      List.nodup_cons.mp distinct
    rcases List.mem_cons.mp h with same | later
    · cases same
      simp [find?]
    · have different : k ≠ key := by
        rintro rfl
        exact fresh (mem_keys later)
      simpa [find?, different] using ih rest_distinct later

theorem eq_of_key {p q : String × α} {pairs : List (String × α)} (distinct : (keys pairs).Nodup)
    (left : p ∈ pairs) (right : q ∈ pairs) (same : p.1 = q.1) : p = q := by
  have first : find? p.1 pairs = some p.2 := find?_of_mem distinct left
  have second : find? q.1 pairs = some q.2 := find?_of_mem distinct right
  rw [same, second] at first
  exact Prod.ext same (Option.some.inj first).symm

theorem find?_mapValues (f : α → β) (key : String) (pairs : List (String × α)) :
    find? key (mapValues f pairs) = (find? key pairs).map f := by
  induction pairs with
  | nil => rfl
  | cons p rest ih =>
    by_cases same : p.1 = key
    · simp [mapValues, find?, same]
    · simpa [mapValues, find?, same] using ih

theorem find?_perm {pairs others : List (String × α)} (distinct : (keys pairs).Nodup)
    (perm : others.Perm pairs) (key : String) : find? key others = find? key pairs := by
  have others_distinct : (keys others).Nodup := (perm.map Prod.fst).nodup_iff.mpr distinct
  ext v
  constructor
  · exact fun found => find?_of_mem distinct (perm.mem_iff.mp (mem_of_find? found))
  · exact fun found => find?_of_mem others_distinct (perm.mem_iff.mpr (mem_of_find? found))

theorem insert_of_not_mem {key : String} {v : α} {pairs : List (String × α)}
    (fresh : key ∉ keys pairs) : insert key v pairs = pairs ++ [(key, v)] := by
  induction pairs with
  | nil => rfl
  | cons p rest ih =>
    have apart : key ≠ p.1 ∧ key ∉ keys rest := by simpa [keys] using fresh
    simp [insert, apart.1.symm, ih apart.2]

theorem insert_of_mem {key : String} {v : α} {pairs : List (String × α)}
    (distinct : (keys pairs).Nodup) (known : key ∈ keys pairs) :
    insert key v pairs = pairs.map fun p => if p.1 = key then (key, v) else p := by
  induction pairs with
  | nil => cases known
  | cons p rest ih =>
    obtain ⟨k, w⟩ := p
    obtain ⟨fresh, rest_distinct⟩ : k ∉ keys rest ∧ (keys rest).Nodup :=
      List.nodup_cons.mp distinct
    by_cases same : k = key
    · subst same
      have others : rest.map (fun p => if p.1 = k then (k, v) else p) = rest := by
        refine (List.map_congr_left fun p listed => if_neg ?_).trans (List.map_id _)
        rintro rfl
        exact fresh (mem_keys listed)
      simp [insert, others]
    · have later : key ∈ keys rest := by simpa [keys, Ne.symm same] using known
      simp [insert, same, ih rest_distinct later]

theorem insertAll_eq {pairs more : List (String × α)} (pairs_distinct : (keys pairs).Nodup)
    (distinct : (keys more).Nodup) : insertAll pairs more =
      (pairs.map fun p => (p.1, (find? p.1 more).getD p.2)) ++
        more.filter fun p => p.1 ∉ keys pairs := by
  induction more generalizing pairs with
  | nil => simp [insertAll, find?]
  | cons q rest ih =>
    obtain ⟨key, v⟩ := q
    obtain ⟨fresh, rest_distinct⟩ : key ∉ keys rest ∧ (keys rest).Nodup :=
      List.nodup_cons.mp distinct
    have unfound : find? key rest = none := find?_eq_none.mpr fresh
    show insertAll (insert key v pairs) rest = _
    rw [ih (nodup_keys_insert pairs_distinct) rest_distinct, keys_insert]
    by_cases known : key ∈ keys pairs
    · rw [if_pos known, insert_of_mem pairs_distinct known, List.map_map,
        List.filter_cons_of_neg (by simpa using known)]
      congr 1
      apply List.map_congr_left
      intro p _
      by_cases same : p.1 = key
      · subst same
        simp [find?, unfound]
      · simp [find?, same, Ne.symm same]
    · rw [if_neg known, insert_of_not_mem known, List.map_append,
        List.filter_cons_of_pos (by simpa using known), List.append_assoc]
      congr 1
      · apply List.map_congr_left
        intro p listed
        have different : key ≠ p.1 := by
          rintro rfl
          exact known (mem_keys listed)
        simp [find?, different]
      · simp only [List.map_cons, List.map_nil, unfound, Option.getD_none, List.singleton_append]
        congr 1
        apply List.filter_congr
        intro p listed
        have different : p.1 ≠ key := by
          rintro rfl
          exact fresh (mem_keys listed)
        simp [different]

def Gains (p : String × α) (pairs more : List (String × α)) : Prop :=
  ∃ before after, pairs = before ++ after ∧ more = before ++ p :: after

variable {p : String × α} {pairs more : List (String × α)} {key : String}

theorem Gains.mem_iff (h : Gains p pairs more) {q : String × α} : q ∈ more ↔ q = p ∨ q ∈ pairs := by
  obtain ⟨before, after, rfl, rfl⟩ := h
  simp only [List.mem_append, List.mem_cons]
  tauto

theorem Gains.mem_keys (h : Gains p pairs more) :
    key ∈ keys more ↔ key = p.1 ∨ key ∈ keys pairs := by
  obtain ⟨before, after, rfl, rfl⟩ := h
  simp only [keys, List.map_append, List.map_cons, List.mem_append, List.mem_cons]
  tauto

theorem Gains.find? (h : Gains p pairs more) (other : key ≠ p.1) :
    Keyed.find? key more = Keyed.find? key pairs := by
  obtain ⟨before, after, rfl, rfl⟩ := h
  induction before with
  | nil => simp [Keyed.find?, other.symm]
  | cons q rest ih =>
    simp only [List.cons_append, Keyed.find?, ih]

theorem Gains.find?_self (h : Gains p pairs more) (fresh : p.1 ∉ keys pairs) :
    Keyed.find? p.1 more = some p.2 := by
  obtain ⟨before, after, rfl, rfl⟩ := h
  induction before with
  | nil => simp [Keyed.find?]
  | cons q rest ih =>
    have apart : p.1 ≠ q.1 ∧ p.1 ∉ keys (rest ++ after) := by simpa [keys] using fresh
    simp [Keyed.find?, apart.1.symm, ih apart.2]

theorem Gains.map {f : α → β} (h : Gains p pairs more) :
    Gains (p.1, f p.2) (mapValues f pairs) (mapValues f more) := by
  obtain ⟨before, after, rfl, rfl⟩ := h
  refine ⟨mapValues f before, mapValues f after, ?_, ?_⟩
  · simp [mapValues]
  · simp [mapValues]

theorem Gains.insert (h : Gains p pairs more) (other : key ≠ p.1) (v : α) :
    Gains p (Keyed.insert key v pairs) (Keyed.insert key v more) := by
  obtain ⟨before, after, rfl, rfl⟩ := h
  induction before with
  | nil => exact ⟨[], Keyed.insert key v after, rfl, by simp [Keyed.insert, other.symm]⟩
  | cons q rest ih =>
    obtain ⟨k, w⟩ := q
    by_cases same : k = key
    · exact ⟨(k, v) :: rest, after, by simp [Keyed.insert, same], by simp [Keyed.insert, same]⟩
    · obtain ⟨first, last, old, new⟩ := ih
      refine ⟨(k, w) :: first, last, ?_, ?_⟩
      · simp [Keyed.insert, same, old]
      · simp [Keyed.insert, same, new]

theorem Gains.insertAll (h : Gains p pairs more) {others : List (String × α)}
    (different : p.1 ∉ keys others) :
    Gains p (Keyed.insertAll pairs others) (Keyed.insertAll more others) := by
  induction others generalizing pairs more with
  | nil => exact h
  | cons q rest ih =>
    have apart : p.1 ≠ q.1 ∧ p.1 ∉ keys rest := by simpa [keys] using different
    exact ih (h.insert apart.1.symm q.2) apart.2

theorem gains_insert {v : α} (fresh : key ∉ keys pairs) :
    Gains (key, v) pairs (Keyed.insert key v pairs) := by
  refine ⟨pairs, [], (List.append_nil _).symm, ?_⟩
  induction pairs with
  | nil => rfl
  | cons q rest ih =>
    have apart : key ≠ q.1 ∧ key ∉ keys rest := by simpa [keys] using fresh
    simp [Keyed.insert, apart.1.symm, ih apart.2]

end Keyed

namespace Names

theorem mem_insert {name n : String} {names : List String} :
    n ∈ insert name names ↔ n = name ∨ n ∈ names := by
  induction names with
  | nil => simp [insert]
  | cons m rest ih =>
    simp only [insert]
    split
    · rename_i h
      subst h
      simp
    · split
      · simp
      · simp only [List.mem_cons, ih]
        tauto

theorem insert_increasing {name : String} {names : List String} (h : names.Pairwise (· < ·)) :
    (insert name names).Pairwise (· < ·) := by
  induction names with
  | nil => simp [insert]
  | cons m rest ih =>
    obtain ⟨first, rest_increasing⟩ := List.pairwise_cons.mp h
    simp only [insert]
    split
    · exact h
    · rename_i different
      split
      · rename_i before
        refine List.pairwise_cons.mpr ⟨fun n hn => ?_, h⟩
        rcases List.mem_cons.mp hn with rfl | hn
        · exact before
        · exact String.lt_trans before (first n hn)
      · rename_i notBefore
        refine List.pairwise_cons.mpr ⟨fun n hn => ?_, ih rest_increasing⟩
        rcases mem_insert.mp hn with rfl | hn
        · by_contra after
          exact different (String.le_antisymm notBefore after)
        · exact first n hn

theorem mem_foldl_insert {n : String} {names acc : List String} :
    n ∈ names.foldl (fun acc n => insert n acc) acc ↔ n ∈ acc ∨ n ∈ names := by
  induction names generalizing acc with
  | nil => simp
  | cons m rest ih =>
    rw [List.foldl_cons, ih, mem_insert, List.mem_cons]
    tauto

@[simp] theorem mem_ofList {n : String} {names : List String} : n ∈ ofList names ↔ n ∈ names := by
  simp [ofList, mem_foldl_insert]

theorem ofList_increasing (names : List String) : (ofList names).Pairwise (· < ·) := by
  suffices h : ∀ acc : List String, acc.Pairwise (· < ·) →
      (names.foldl (fun acc n => insert n acc) acc).Pairwise (· < ·) from h [] .nil
  induction names with
  | nil => exact fun _ h => h
  | cons m rest ih => exact fun acc h => ih _ (insert_increasing h)

theorem ofList_congr {names other : List String} (h : ∀ n, n ∈ names ↔ n ∈ other) :
    ofList names = ofList other := by
  have irrefl : Std.Irrefl (fun a b : String => a < b) := ⟨String.lt_irrefl⟩
  have antisymm : Std.Antisymm (fun a b : String => a < b) :=
    ⟨fun _ _ ab ba => absurd ba (String.lt_asymm ab)⟩
  apply List.Pairwise.eq_of_mem_iff (ofList_increasing names) (ofList_increasing other)
  intro n
  rw [mem_ofList, mem_ofList]
  exact h n

end Names

end TypedClients
