import TypedClients.Document.Decode
import TypedClients.Proofs.Keyed

namespace TypedClients

namespace Shape

variable {σ : Type} {known : List (Option (String × σ))} {named : List (String × σ)}

def addField (acc : List (String × σ)) : Option (String × σ) → Option (List (String × σ))
  | none => some acc
  | some (name, v) => if Keyed.contains name acc then none else some (acc ++ [(name, v)])

theorem distinctFields?_eq (known : List (Option (String × σ))) :
    distinctFields? known = known.foldlM addField [] := rfl

theorem find?_of_distinctFields? (run : distinctFields? known = some named) (name : String) :
    Keyed.find? name named = Keyed.find? name (known.filterMap id) := by
  -- The fields kept so far stand before those still to come, and shadow none of them.
  suffices h : ∀ acc, known.foldlM addField acc = some named → Keyed.find? name named =
      (Keyed.find? name acc).or (Keyed.find? name (known.filterMap id)) from
    h [] (distinctFields?_eq known ▸ run)
  clear run
  induction known with
  | nil =>
    intro acc run
    cases run
    simp [Keyed.find?]
  | cons f rest ih =>
    intro acc run
    obtain ⟨next, step, run⟩ := Option.bind_eq_some_iff.mp run
    rw [ih next run]
    cases f with
    | none =>
      cases step
      rfl
    | some p =>
      obtain ⟨k, v⟩ := p
      simp only [addField] at step
      split at step
      · cases step
      · cases step
        rw [Keyed.find?_append, Option.or_assoc]
        by_cases same : k = name
        · simp [Keyed.find?, same]
        · simp [Keyed.find?, same]

variable {names : List String} {aliases : List (String × String)} {key : String}

theorem canonical?_eq_some_iff (known : key ∈ names) (own : ∀ a, Keyed.find? a aliases ≠ some key)
    (k : String) : canonical? names aliases k = some key ↔ k = key := by
  unfold canonical?
  split
  · exact Option.some_inj
  · rename_i unknown
    constructor
    · exact fun given => absurd given (own k)
    · rintro rfl
      exact absurd (List.contains_iff_mem.mpr known) unknown

theorem find?_canonical (known : key ∈ names) (own : ∀ a, Keyed.find? a aliases ≠ some key)
    (fields : List (String × Json)) :
    Keyed.find? key (fields.filterMap fun p =>
      (canonical? names aliases p.1).map fun n => (n, Datum.ofJson p.2)) =
        (Keyed.find? key fields).map Datum.ofJson := by
  induction fields with
  | nil => rfl
  | cons p rest ih =>
    obtain ⟨k, v⟩ := p
    have named := canonical?_eq_some_iff known own k
    by_cases same : k = key
    · rw [List.filterMap_cons, named.mpr same]
      simp [Keyed.find?, same]
    · cases unnamed : canonical? names aliases k with
      | none => simpa [unnamed, Keyed.find?, same] using ih
      | some n =>
        have other : n ≠ key := by
          rintro rfl
          exact same (named.mp unnamed)
        simpa [unnamed, Keyed.find?, same, other] using ih

theorem mapM_fieldOfKey? (fields : List (String × Json)) :
    ((Datum.ofFields fields).mapM fun (key, value) =>
      (fieldOfKey? names aliases key).map fun name => name.map fun n => (n, value)) =
        some (fields.map fun p =>
          (canonical? names aliases p.1).map fun n => (n, Datum.ofJson p.2)) := by
  induction fields with
  | nil => rfl
  | cons p rest ih =>
    rw [Datum.ofFields, List.mapM_cons, ih]
    rfl

theorem datumFields?_ofJson {fields : List (String × Json)} {f : Fields Datum}
    (read : datumFields? names aliases (Datum.ofJson (.object fields)) = some f) :
    f.byPlace = false ∧ ∀ key ∈ names, (∀ a, Keyed.find? a aliases ≠ some key) →
      Keyed.find? key f.named = (Keyed.find? key fields).map Datum.ofJson := by
  obtain ⟨known, run, read⟩ := Option.bind_eq_some_iff.mp read
  obtain ⟨named, distinct, same⟩ := Option.bind_eq_some_iff.mp read
  cases same
  rw [mapM_fieldOfKey?] at run
  cases run
  refine ⟨rfl, fun key member own => ?_⟩
  rw [find?_of_distinctFields? distinct, List.filterMap_map]
  exact find?_canonical member own fields

theorem optional_eq {α : Type} {f : Fields Datum} {name : String} {read : Datum → Option α}
    {a : Option α} (named : f.byPlace = false) (null : read .null = none)
    (run : f.optional name read = some a) : a = (Keyed.find? name f.named).bind read := by
  unfold Fields.optional at run
  rw [named] at run
  cases found : Keyed.find? name f.named with
  | none =>
    rw [found] at run
    cases run
    rfl
  | some v =>
    rw [found] at run
    dsimp only at run
    split at run
    · rename_i empty
      cases run
      cases v with
      | null => exact null.symm
      | _ => cases empty
    · obtain ⟨b, given, same⟩ := Option.map_eq_some_iff.mp run
      cases same
      exact given.symm

end Shape

namespace Schema

open Shape

def typeSet? (type : Option Json) : Option TypeSet :=
  type.bind fun v => TypeSet.read (Datum.ofJson v)

def NamesNull (type : Option Json) : Prop := ∃ types, typeSet? type = some types ∧
  types.contains .null = true

theorem readKeywords_type {f : Fields Datum} {keywords : Keywords} (named : f.byPlace = false)
    (read : readKeywords f = some keywords) :
    keywords.type = (Keyed.find? "type" f.named).bind TypeSet.read ∧
      keywords.nullable = (Keyed.find? "nullable" f.named).bind bool := by
  unfold readKeywords at read
  obtain ⟨type, typed, read⟩ := Option.bind_eq_some_iff.mp read
  obtain ⟨format, _, read⟩ := Option.bind_eq_some_iff.mp read
  obtain ⟨description, _, read⟩ := Option.bind_eq_some_iff.mp read
  obtain ⟨default, _, read⟩ := Option.bind_eq_some_iff.mp read
  obtain ⟨nullable, flagged, read⟩ := Option.bind_eq_some_iff.mp read
  obtain ⟨readOnly, _, read⟩ := Option.bind_eq_some_iff.mp read
  obtain ⟨required, _, read⟩ := Option.bind_eq_some_iff.mp read
  obtain ⟨discriminator, _, read⟩ := Option.bind_eq_some_iff.mp read
  obtain ⟨enumValues, _, read⟩ := Option.bind_eq_some_iff.mp read
  obtain ⟨constValue, _, read⟩ := Option.bind_eq_some_iff.mp read
  obtain ⟨minimum, _, read⟩ := Option.bind_eq_some_iff.mp read
  obtain ⟨maximum, _, read⟩ := Option.bind_eq_some_iff.mp read
  obtain ⟨exclusiveMinimum, _, read⟩ := Option.bind_eq_some_iff.mp read
  obtain ⟨exclusiveMaximum, _, read⟩ := Option.bind_eq_some_iff.mp read
  obtain ⟨multipleOf, _, read⟩ := Option.bind_eq_some_iff.mp read
  obtain ⟨minLength, _, read⟩ := Option.bind_eq_some_iff.mp read
  obtain ⟨maxLength, _, read⟩ := Option.bind_eq_some_iff.mp read
  obtain ⟨pattern, _, read⟩ := Option.bind_eq_some_iff.mp read
  obtain ⟨minItems, _, read⟩ := Option.bind_eq_some_iff.mp read
  obtain ⟨maxItems, _, same⟩ := Option.bind_eq_some_iff.mp read
  cases same
  exact ⟨optional_eq named rfl typed, optional_eq named rfl flagged⟩

theorem readWith_keywords {sub : Datum → Option SchemaRef} {d : Datum} {s : Schema}
    (read : readWith sub d = some s) : ∃ f, datumFields? fieldNames fieldAliases d = some f ∧
      readKeywords f.lenient = some s.toKeywords := by
  unfold readWith at read
  obtain ⟨f, found, read⟩ := Option.bind_eq_some_iff.mp read
  obtain ⟨keywords, given, read⟩ := Option.bind_eq_some_iff.mp read
  obtain ⟨properties, _, read⟩ := Option.bind_eq_some_iff.mp read
  obtain ⟨additional, _, read⟩ := Option.bind_eq_some_iff.mp read
  obtain ⟨patterns, _, read⟩ := Option.bind_eq_some_iff.mp read
  obtain ⟨dependents, _, read⟩ := Option.bind_eq_some_iff.mp read
  obtain ⟨items, _, read⟩ := Option.bind_eq_some_iff.mp read
  obtain ⟨allOf, _, read⟩ := Option.bind_eq_some_iff.mp read
  obtain ⟨oneOf, _, read⟩ := Option.bind_eq_some_iff.mp read
  obtain ⟨anyOf, _, read⟩ := Option.bind_eq_some_iff.mp read
  obtain ⟨notSchema, _, read⟩ := Option.bind_eq_some_iff.mp read
  obtain ⟨ifSchema, _, read⟩ := Option.bind_eq_some_iff.mp read
  obtain ⟨thenSchema, _, read⟩ := Option.bind_eq_some_iff.mp read
  obtain ⟨elseSchema, _, read⟩ := Option.bind_eq_some_iff.mp read
  obtain ⟨definitions, _, same⟩ := Option.bind_eq_some_iff.mp read
  cases same
  exact ⟨f, found, given⟩

theorem readWith_isNullable {sub : Datum → Option SchemaRef} {fields : List (String × Json)}
    {s : Schema} (read : readWith sub (Datum.ofJson (.object fields)) = some s)
    (unflagged : Keyed.find? "nullable" fields = none) :
    s.isNullable = true ↔ NamesNull (Keyed.find? "type" fields) := by
  obtain ⟨f, found, keywords⟩ := readWith_keywords read
  obtain ⟨_, lookup⟩ := datumFields?_ofJson found
  have unaliased : ∀ {key}, key ≠ "definitions" → ∀ a, Keyed.find? a fieldAliases ≠ some key := by
    intro key other a given
    unfold fieldAliases at given
    simp only [Keyed.find?] at given
    split at given
    · exact other (Option.some.inj given).symm
    · cases given
  have type : Keyed.find? "type" f.lenient.named = (Keyed.find? "type" fields).map Datum.ofJson :=
    lookup "type" (by decide) (unaliased (by decide))
  have nullable : Keyed.find? "nullable" f.lenient.named =
      (Keyed.find? "nullable" fields).map Datum.ofJson :=
    lookup "nullable" (by decide) (unaliased (by decide))
  obtain ⟨typed, flagged⟩ := readKeywords_type rfl keywords
  rw [type, Option.bind_map] at typed
  rw [nullable, unflagged] at flagged
  unfold isNullable
  rw [typed, flagged]
  show (Option.any _ (typeSet? (Keyed.find? "type" fields))) = true ↔ _
  rw [Option.any_eq_true]
  rfl

theorem readRefWithin_inline {depth : Nat} {fields : List (String × Json)} {r : SchemaRef}
    (read : readRefWithin depth (Datum.ofJson (.object fields)) = some r)
    (inline : Keyed.find? "$ref" fields = none) :
    ∃ s sub, r = .item s ∧ readWith sub (Datum.ofJson (.object fields)) = some s := by
  cases depth with
  | zero => cases read
  | succ depth =>
    have unreferenced : reference? (Datum.ofJson (.object fields)) = none := by
      show (datumFields? ["$ref"] [] (Datum.ofJson (.object fields))).bind _ = none
      refine Option.bind_eq_none_iff.mpr fun f found => ?_
      obtain ⟨_, lookup⟩ := datumFields?_ofJson found
      have absent := lookup "$ref" List.mem_cons_self nofun
      unfold Fields.required
      rw [absent, inline]
      rfl
    rw [readRefWithin, referenced, unreferenced] at read
    obtain ⟨s, given, rfl⟩ := Option.map_eq_some_iff.mp read
    exact ⟨s, _, rfl, given⟩

end Schema

end TypedClients
