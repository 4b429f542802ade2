import TypedClients.Proofs.Overwriting
import TypedClients.Proofs.Surfaces
import TypedClients.Proofs.Translation

namespace TypedClients

/-- The schemas given in place among members, each before those nested in it. -/
def conjoined (members : List SchemaRef) : List Schema :=
  match members with
  | [] => []
  | .ref _ :: rest => conjoined rest
  | .item s :: rest => s :: (conjoined s.allOf ++ conjoined rest)
termination_by sizeOf members
decreasing_by
  · simp only [List.cons.sizeOf_spec]
    omega
  · have := s.sizeOf_allOf
    simp only [List.cons.sizeOf_spec, Referenced.item.sizeOf_spec]
    omega
  · simp only [List.cons.sizeOf_spec]
    omega

/-- What declares the properties of a conjunction, in this order; the schema itself comes last. -/
def Schema.conjoined (s : Schema) : List Schema := TypedClients.conjoined s.allOf ++ [s]

inductive Schema.Joins : Schema → Schema → Prop where
  | here {s c : Schema} (listed : .item c ∈ s.allOf) : Joins s c
  | deeper {s m c : Schema} (listed : .item m ∈ s.allOf) (h : Joins m c) : Joins s c

theorem Schema.joins_iff {s c : Schema} :
    s.Joins c ↔ ∃ m, .item m ∈ s.allOf ∧ (c = m ∨ m.Joins c) := by
  constructor
  · intro joins
    cases joins with
    | here listed => exact ⟨c, listed, .inl rfl⟩
    | deeper listed deeper => exact ⟨_, listed, .inr deeper⟩
  · rintro ⟨m, listed, rfl | deeper⟩
    · exact .here listed
    · exact .deeper listed deeper

theorem mem_conjoined {c : Schema} (members : List SchemaRef) :
    c ∈ conjoined members ↔ ∃ m, .item m ∈ members ∧ (c = m ∨ m.Joins c) := by
  match members with
  | [] =>
    rw [conjoined]
    simp
  | .ref _ :: rest =>
    rw [conjoined, mem_conjoined rest]
    simp
  | .item s :: rest =>
    rw [conjoined, List.mem_cons, List.mem_append, mem_conjoined s.allOf, ← Schema.joins_iff,
      mem_conjoined rest]
    constructor
    · rintro (rfl | joins | ⟨m, listed, joins⟩)
      · exact ⟨c, List.mem_cons_self, .inl rfl⟩
      · exact ⟨s, List.mem_cons_self, .inr joins⟩
      · exact ⟨m, List.mem_cons_of_mem _ listed, joins⟩
    · rintro ⟨m, listed, joins⟩
      rcases List.mem_cons.mp listed with same | listed
      · cases same
        exact joins.imp id .inl
      · exact .inr (.inr ⟨m, listed, joins⟩)
termination_by sizeOf members
decreasing_by
  · simp only [List.cons.sizeOf_spec]
    omega
  · have := s.sizeOf_allOf
    simp only [List.cons.sizeOf_spec, Referenced.item.sizeOf_spec]
    omega
  · simp only [List.cons.sizeOf_spec]
    omega

theorem Schema.mem_conjoined {s c : Schema} : c ∈ s.conjoined ↔ c = s ∨ s.Joins c := by
  rw [conjoined, List.mem_append, TypedClients.mem_conjoined, ← joins_iff, List.mem_singleton]
  exact or_comm

theorem insertField_eq (f : FieldDecl) (fields : List FieldDecl) :
    insertField f fields = overwrite FieldDecl.name f fields := by
  induction fields with
  | nil => rfl
  | cons g rest ih => rw [insertField, overwrite, ih]

theorem insertFields_eq (fields more : List FieldDecl) : insertFields fields more =
    more.foldl (fun acc f => overwrite FieldDecl.name f acc) fields := by
  simp only [insertFields, insertField_eq]

/-- The fields of the members and of those nested in them, one after the other, overwrite each
other. -/
theorem mergeMembers_overwrites {declared fields : List FieldDecl}
    (before : Overwrites FieldDecl.name declared fields) (members : List SchemaRef) :
    Overwrites FieldDecl.name (declared ++ (conjoined members).flatMap Schema.fields)
      (mergeMembers fields members) := by
  match members with
  | [] =>
    rw [mergeMembers, conjoined]
    simpa using before
  | .ref _ :: rest =>
    rw [mergeMembers, conjoined]
    exact mergeMembers_overwrites before rest
  | .item s :: rest =>
    have nested : Overwrites FieldDecl.name _ (mergeMembers [] s.allOf) :=
      mergeMembers_overwrites .nil s.allOf
    have here := (before.putAll s.fields).append nested
    have later := mergeMembers_overwrites here rest
    rw [mergeMembers, insertFields_eq, insertFields_eq, conjoined]
    simpa [List.flatMap_append] using later
termination_by sizeOf members
decreasing_by
  · simp only [List.cons.sizeOf_spec]
    omega
  · have := s.sizeOf_allOf
    simp only [List.cons.sizeOf_spec, Referenced.item.sizeOf_spec]
    omega
  · simp only [List.cons.sizeOf_spec]
    omega

theorem insertFields_overwrites (members : List SchemaRef) (beside : Schema) :
    Overwrites FieldDecl.name ((conjoined members).flatMap Schema.fields ++ beside.fields)
      (insertFields (mergeMembers [] members) beside.fields) := by
  have merged : Overwrites FieldDecl.name _ (mergeMembers [] members) :=
    mergeMembers_overwrites .nil members
  rw [insertFields_eq]
  exact merged.putAll beside.fields

/-- Level by level or all at once: the merged fields are the latest of those that all the properties
become. -/
theorem insertFields_latest (members : List SchemaRef) (beside : Schema) :
    insertFields (mergeMembers [] members) beside.fields =
        latest FieldDecl.name ((conjoined members ++ [beside]).flatMap fun s =>
          s.properties.map (FieldDecl.ofProperty s.required)) ∧
      ((insertFields (mergeMembers [] members) beside.fields).map FieldDecl.name).Nodup := by
  have overwrites := insertFields_overwrites members beside
  have declared : (conjoined members).flatMap Schema.fields ++ beside.fields =
      (conjoined members ++ [beside]).flatMap fun s =>
        s.properties.map (FieldDecl.ofProperty s.required) := by
    simp only [← Schema.fields_eq, List.flatMap_append, List.flatMap_singleton]
  rw [← declared]
  exact ⟨overwrites.eq_latest, overwrites.nodup⟩

theorem Schema.flatFields_overwrites (s : Schema) :
    Overwrites FieldDecl.name (s.conjoined.flatMap Schema.fields) s.flatFields := by
  have whole := insertFields_overwrites s.allOf s
  rw [flatFields, conjoined]
  simpa [List.flatMap_append] using whole

theorem Schema.mem_flatFields {s : Schema} {f : FieldDecl} (h : f ∈ s.flatFields) :
    ∃ c, (c = s ∨ s.Joins c) ∧ f ∈ c.fields := by
  have declared := lastUnder?_eq_some (s.flatFields_overwrites.last f h)
  obtain ⟨c, joined, mem⟩ := List.mem_flatMap.mp declared.1
  exact ⟨c, mem_conjoined.mp joined, mem⟩

theorem Schema.Joins.nests {s c : Schema} (h : s.Joins c) : SchemaRef.Nests (.item s) c := by
  induction h with
  | here listed => exact .inside (.allOf listed) (.self _)
  | deeper listed _ ih => exact .inside (.allOf listed) ih

end TypedClients
