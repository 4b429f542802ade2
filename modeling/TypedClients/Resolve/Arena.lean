import TypedClients.Document.Walk

namespace TypedClients

inductive ResolveError where
  | targetNotFound (reference location : String)
  | invalidFormat (reference location : String)
  | circularAlias (name : String)
  | invalidDiscriminatorTarget (schema key target : String)
deriving DecidableEq, Repr

def ResolveError.message : ResolveError → String
  | .targetNotFound r l => "reference target not found: " ++ r ++ " (at " ++ l ++ ")"
  | .invalidFormat r l => "invalid reference format: " ++ r ++ " (at " ++ l ++ ")"
  | .circularAlias n => "reference chain never reaches a schema: " ++ n
  | .invalidDiscriminatorTarget s k t =>
    "discriminator on " ++ s ++ " maps \x60" ++ k ++ "\x60 to a non-schema target " ++ t

structure Arena where
  schemas : List (String × SchemaRef) := []

/-- What a schema or reference comes to: a schema, with the name it is stored under if it was
reached by name, or a name that is being expanded already. -/
inductive Deref where
  | schema (name : Option String) (s : Schema)
  | cycle (name : String)

namespace Arena

def find? (arena : Arena) (name : String) : Option SchemaRef := Keyed.find? name arena.schemas

def contains (arena : Arena) (name : String) : Bool := Keyed.contains name arena.schemas

def names (arena : Arena) : List String := Keyed.keys arena.schemas

def place : String := "#/components/schemas"

/-- Follows aliases through entries that were not visited before. -/
def derefFrom (arena : Arena) (busy : List String) (unvisited : List (String × SchemaRef))
    (name : Option String) : SchemaRef → Except ResolveError Deref
  | .item s => .ok (.schema name s)
  | .ref path =>
    match Pointer.schemaName? path with
    | none => .error (.invalidFormat path place)
    | some n =>
      if !arena.contains n then .error (.targetNotFound path place)
      else if busy.contains n then .ok (.cycle n)
      else match _h : Keyed.find? n unvisited with
        | none => .error (.circularAlias n)
        | some target => derefFrom arena busy (Keyed.erase n unvisited) (some n) target
termination_by unvisited.length
decreasing_by exact Keyed.length_erase_lt _h

/-- `busy` holds the names that are being expanded. -/
def deref (arena : Arena) (busy : List String) (schema : SchemaRef) : Except ResolveError Deref :=
  derefFrom arena busy arena.schemas none schema

def unexpanded (arena : Arena) (busy : List String) : List (String × SchemaRef) :=
  arena.schemas.filter fun (n, _) => !busy.contains n

theorem derefFrom_schema {arena : Arena} {busy : List String}
    {unvisited : List (String × SchemaRef)} {name found : Option String} {r : SchemaRef}
    {s : Schema}
    (h : arena.derefFrom busy unvisited name r = .ok (.schema found s)) :
    (∃ s, r = .item s ∧ found = name) ∨
      ∃ n, found = some n ∧ arena.contains n = true ∧ busy.contains n = false := by
  fun_induction derefFrom arena busy unvisited name r with
  | case1 => exact .inl ⟨_, rfl, by simp_all⟩
  | case2 => cases h
  | case3 => cases h
  | case4 => cases h
  | case5 => cases h
  | case6 _ _ _ n _ hc hb target _ ih =>
    rcases ih h with ⟨_, _, rfl⟩ | found
    · exact .inr ⟨n, rfl, by simpa using hc, by simpa using hb⟩
    · exact .inr found

theorem unexpanded_cons_lt {arena : Arena} {busy : List String} {n : String}
    (known : arena.contains n = true) (fresh : busy.contains n = false) :
    (arena.unexpanded (n :: busy)).length < (arena.unexpanded busy).length := by
  obtain ⟨s, hs⟩ := Keyed.contains_iff_mem.mp known
  have shrink : arena.unexpanded (n :: busy) =
      (arena.unexpanded busy).filter fun (m, _) => m != n := by
    unfold unexpanded
    rw [List.filter_filter]
    apply List.filter_congr
    rintro ⟨m, _⟩ _
    by_cases hm : m = n <;> simp [hm]
  rw [shrink]
  refine List.length_filter_lt_length_iff_exists.mpr ⟨(n, s), ?_, by simp⟩
  exact List.mem_filter.mpr ⟨hs, by simpa using fresh⟩

theorem unexpanded_deref_lt {arena : Arena} {busy : List String} {path : String}
    {found : Option String} {s : Schema}
    (h : arena.deref busy (.ref path) = .ok (.schema found s)) :
    (arena.unexpanded (found.toList ++ busy)).length < (arena.unexpanded busy).length := by
  rcases derefFrom_schema h with ⟨_, hr, _⟩ | ⟨n, rfl, known, fresh⟩
  · cases hr
  · exact unexpanded_cons_lt known fresh

def concreteFrom (arena : Arena) (unvisited : List (String × SchemaRef)) (name : String) :
    Except ResolveError (String × Schema) :=
  if !arena.contains name then .error (.targetNotFound (place ++ "/" ++ name) place)
  else match _h : Keyed.find? name unvisited with
    | none => .error (.circularAlias name)
    | some (.item s) => .ok (name, s)
    | some (.ref path) =>
      match Pointer.schemaName? path with
      | none => .error (.invalidFormat path place)
      | some next => concreteFrom arena (Keyed.erase name unvisited) next
termination_by unvisited.length
decreasing_by exact Keyed.length_erase_lt _h

def concrete (arena : Arena) (name : String) : Except ResolveError (String × Schema) :=
  concreteFrom arena arena.schemas name

end Arena

end TypedClients
