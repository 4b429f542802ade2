namespace TypedClients

namespace Keyed

variable {α : Type} {β : Type}

def find? (key : String) : List (String × α) → Option α
  | [] => none
  | (k, v) :: rest => if k = key then some v else find? key rest

def contains (key : String) (pairs : List (String × α)) : Bool := (find? key pairs).isSome

/-- A known key keeps its place and takes the new value; a new key comes last. -/
def insert (key : String) (value : α) : List (String × α) → List (String × α)
  | [] => [(key, value)]
  | (k, v) :: rest => if k = key then (k, value) :: rest else (k, v) :: insert key value rest

def insertAll (pairs : List (String × α)) (more : List (String × α)) : List (String × α) :=
  more.foldl (fun acc (k, v) => insert k v acc) pairs

def ofList (pairs : List (String × α)) : List (String × α) := insertAll [] pairs

def erase (key : String) (pairs : List (String × α)) : List (String × α) :=
  pairs.filter fun (k, _) => k != key

theorem mem_of_find? {key : String} {v : α} {pairs : List (String × α)}
    (h : find? key pairs = some v) : (key, v) ∈ pairs := by
  induction pairs with
  | nil => simp [find?] at h
  | cons p rest ih =>
    obtain ⟨k, w⟩ := p
    simp only [find?] at h
    split at h
    · rename_i hk
      simp only [Option.some.injEq] at h
      subst hk; subst h
      exact List.mem_cons_self
    · exact List.mem_cons_of_mem _ (ih h)

theorem contains_iff_mem {key : String} {pairs : List (String × α)} :
    contains key pairs = true ↔ ∃ v, (key, v) ∈ pairs := by
  constructor
  · intro h
    obtain ⟨v, hv⟩ := Option.isSome_iff_exists.mp h
    exact ⟨v, mem_of_find? hv⟩
  · rintro ⟨v, hv⟩
    induction pairs with
    | nil => cases hv
    | cons p rest ih =>
      simp only [contains, find?]
      split
      · rfl
      · rename_i hk
        rcases List.mem_cons.mp hv with h | h
        · exact absurd (congrArg Prod.fst h).symm hk
        · exact ih h

theorem length_erase_lt {key : String} {v : α} {pairs : List (String × α)}
    (h : find? key pairs = some v) : (erase key pairs).length < pairs.length :=
  List.length_filter_lt_length_iff_exists.mpr ⟨_, mem_of_find? h, by simp⟩

def insertSorted (key : String) (value : α) : List (String × α) → List (String × α)
  | [] => [(key, value)]
  | (k, v) :: rest =>
    if k = key then (k, value) :: rest
    else if key < k then (key, value) :: (k, v) :: rest
    else (k, v) :: insertSorted key value rest

def sortedOfList (pairs : List (String × α)) : List (String × α) :=
  pairs.foldl (fun acc (k, v) => insertSorted k v acc) []

def keys (pairs : List (String × α)) : List String := pairs.map Prod.fst

def mapValues (f : α → β) (pairs : List (String × α)) : List (String × β) :=
  pairs.map fun (k, v) => (k, f v)

end Keyed

namespace Names

def insert (name : String) : List String → List String
  | [] => [name]
  | n :: rest =>
    if n = name then n :: rest
    else if name < n then name :: n :: rest
    else n :: insert name rest

def ofList (names : List String) : List String := names.foldl (fun acc n => insert n acc) []

end Names

end TypedClients
