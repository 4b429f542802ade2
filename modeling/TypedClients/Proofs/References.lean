import TypedClients.Proofs.Discriminator
import TypedClients.Proofs.Outcome
import TypedClients.Resolve.Resolved

namespace TypedClients

theorem normalTable_eq (table : List (String × SchemaRef)) :
    normalTable table = Keyed.mapValues normalRef table := by
  induction table with
  | nil => rfl
  | cons p rest ih =>
    rw [normalTable, ih]
    rfl

theorem normalList_eq (members : List SchemaRef) : normalList members = members.map normalRef := by
  induction members with
  | nil => rfl
  | cons s rest ih =>
    rw [normalList, ih]
    rfl

theorem normalOption_eq (s : Option SchemaRef) : normalOption s = s.map normalRef := by
  cases s <;> rfl

namespace Schema

theorem additional?_normalSchema (s : Schema) :
    (normalSchema s).additional? = s.additional?.map normalRef := by
  cases s with
  | mk keywords properties additional =>
    rw [normalSchema]
    unfold additional?
    cases additional with
    | none => rfl
    | some a => cases a <;> rfl

theorem children_normalSchema (s : Schema) :
    (normalSchema s).children = s.children.map fun x => (x.1, normalRef x.2) := by
  have named (slot : String → Slot) (table : List (String × SchemaRef)) :
      namedSlots slot (normalTable table) =
        (namedSlots slot table).map fun x => (x.1, normalRef x.2) := by
    rw [normalTable_eq, namedSlots, namedSlots, Keyed.mapValues, List.map_map, List.map_map]
    rfl
  have numbered (slot : Nat → Slot) (members : List SchemaRef) :
      numberedSlots slot (normalList members) =
        (numberedSlots slot members).map fun x => (x.1, normalRef x.2) := by
    rw [normalList_eq, numberedSlots, numberedSlots, List.zipIdx_map, List.map_map, List.map_map]
    rfl
  have optional (slot : Slot) (o : Option SchemaRef) : optionalSlot slot (o.map normalRef) =
      (optionalSlot slot o).map fun x => (x.1, normalRef x.2) := by
    cases o <;> rfl
  have additional := s.additional?_normalSchema
  unfold children
  rw [additional]
  cases s
  rw [normalSchema]
  simp only [normalOption_eq, named, numbered, optional, List.map_append]

theorem holds_of_normal {s : Schema} {c : SchemaRef} (h : (normalSchema s).Holds c) :
    ∃ original, s.Holds original ∧ c = normalRef original := by
  obtain ⟨slot, child⟩ := holds_iff_child.mp h
  rw [children_normalSchema] at child
  obtain ⟨⟨at_, original⟩, listed, same⟩ := List.mem_map.mp child
  cases same
  exact ⟨original, holds_iff_child.mpr ⟨at_, listed⟩, rfl⟩

end Schema

theorem mentions_of_normalRef {r : SchemaRef} {path : String} (h : (normalRef r).Mentions path) :
    ∃ original, r.Mentions original ∧ path = normalReference original := by
  induction r using SchemaRef.induction with
  | ref original =>
    rw [normalRef] at h
    cases h
    exact ⟨original, .here original, rfl⟩
  | item s ih =>
    rw [normalRef] at h
    cases h with
    | inside held h =>
      obtain ⟨c, stands, rfl⟩ := Schema.holds_of_normal held
      obtain ⟨original, mentioned, same⟩ := ih c stands h
      exact ⟨original, .inside stands mentioned, same⟩

theorem checkSchema_eq_ok {known : String → Bool} {location : String} {source s : SchemaRef} :
    checkSchema known location source = .ok s ↔
      s = normalRef source ∧ ∀ site ∈ source.sites location, referenceFault? known site = none := by
  unfold checkSchema
  cases fault : (source.sites location).findSome? (referenceFault? known) with
  | none =>
    rw [List.findSome?_eq_none_iff] at fault
    simp only [Except.ok.injEq]
    constructor
    · intro same
      exact ⟨same.symm, fault⟩
    · intro h
      exact h.1.symm
  | some e =>
    obtain ⟨site, listed, faulty⟩ := List.exists_of_findSome?_eq_some fault
    constructor
    · intro h
      cases h
    · intro given
      obtain ⟨_, clean⟩ := given
      rw [clean site listed] at faulty
      cases faulty

theorem referenceFault?_eq_none {known : String → Bool} {site : String × String} :
    referenceFault? known site = none ↔
      ∃ n, Pointer.schemaName? site.2 = some n ∧ known n = true := by
  unfold referenceFault?
  cases Pointer.schemaName? site.2 with
  | none => simp
  | some n => simp

theorem checkSchema_of_named {known : String → Bool} {s : SchemaRef} (location : String)
    (h : ∀ path, s.Mentions path → ∃ n, Pointer.schemaName? path = some n ∧ known n = true) :
    checkSchema known location s = .ok (normalRef s) := by
  refine checkSchema_eq_ok.mpr ⟨rfl, fun site listed => ?_⟩
  exact referenceFault?_eq_none.mpr (h site.2 (SchemaRef.mem_sites.mp ⟨site.1, listed⟩))

/-- A reference in its one spelling that names a stored schema. -/
def Arena.Canonical (arena : Arena) (path : String) : Prop :=
  ∃ n ∈ arena.names, path = Pointer.ofSchema n ∧ Pointer.schemaName? path = some n

/-- What the readers of a schema come across: they list the schemas given in place, and look at the
children of each. -/
def SchemaRef.Shows (r : SchemaRef) (path : String) : Prop :=
  r = .ref path ∨ ∃ t ∈ r.inlined, ∃ slot, (slot, Referenced.ref path) ∈ t.children

theorem SchemaRef.shows_iff {r : SchemaRef} {path : String} : r.Shows path ↔ r.Mentions path := by
  unfold Shows
  simp only [mentions_iff, mem_inlined, Schema.holds_iff_child]

namespace Document

def CheckedSite (doc : Document) (source : SchemaRef) (location path : String) : Prop :=
  ∃ place original, (place, original) ∈ source.sites location ∧
    referenceFault? doc.declares (place, original) = none ∧ path = normalReference original

variable {doc : Document}

theorem declares_iff {name : String} :
    doc.declares name = true ↔ name ∈ Keyed.keys doc.declaredSchemas := by
  unfold declares declaredSchemas
  rw [Bool.or_eq_true, Keyed.contains_iff_mem_keys, Keyed.contains_iff_mem_keys,
    Keyed.keys_insertAll]

theorem checkedSite_of_check {location path : String} {source s : SchemaRef}
    (h : checkSchema doc.declares location source = .ok s) (mentioned : s.Mentions path) :
    doc.CheckedSite source location path := by
  obtain ⟨rfl, clean⟩ := checkSchema_eq_ok.mp h
  obtain ⟨original, stands, same⟩ := mentions_of_normalRef mentioned
  obtain ⟨place, site⟩ := SchemaRef.mem_sites.mpr stands
  exact ⟨place, original, site, clean _ site, same⟩

theorem CheckedSite.canonical {source : SchemaRef} {location path : String} {arena : Arena}
    (h : doc.CheckedSite source location path)
    (names : arena.names = Keyed.keys doc.declaredSchemas) : arena.Canonical path := by
  obtain ⟨place, original, _, clean, rfl⟩ := h
  obtain ⟨n, named, known⟩ := referenceFault?_eq_none.mp clean
  have respelled : normalReference original = Pointer.ofSchema n := by
    unfold normalReference
    rw [named]
  refine ⟨n, ?_, respelled, ?_⟩
  · rw [names]
    exact declares_iff.mp known
  · rw [respelled]
    exact Pointer.schemaName?_ofSchema (Pointer.schemaName?_ne_empty named)

def Checked (doc : Document) (s : SchemaRef) : Prop :=
  ∃ source location, checkSchema doc.declares location source = .ok s

end Document

inductive Operation.Uses (op : Operation) (s : SchemaRef) : Prop where
  | parameter {p : Parameter} (h : .item p ∈ op.parameters) (schema : p.schema = some s)
  | requestBody {b : RequestBody} {type : String} {media : MediaType}
      (h : op.requestBody = some (.item b)) (content : (type, media) ∈ b.content)
      (schema : media.schema = some s)
  | response {status : String} {r : Response} {type : String} {media : MediaType}
      (h : (status, .item r) ∈ op.responses) (content : (type, media) ∈ r.content)
      (schema : media.schema = some s)

inductive PathItem.Uses (item : PathItem) (s : SchemaRef) : Prop where
  | parameter {p : Parameter} (h : .item p ∈ item.parameters) (schema : p.schema = some s)
  | operation {verb : Verb} {op : Operation} (h : (verb, op) ∈ item.operations) (uses : op.Uses s)

inductive Document.Uses (doc : Document) (s : SchemaRef) : Prop where
  | path {route : String} {item : PathItem} (h : (route, item) ∈ doc.paths) (uses : item.Uses s)

inductive Document.Gives (doc : Document) (s : SchemaRef) : Prop where
  | used (h : doc.Uses s)
  | parameter {name : String} {p : Parameter} (h : (name, .item p) ∈ doc.parameterTable.entries)
      (schema : p.schema = some s)
  | requestBody {name type : String} {b : RequestBody} {media : MediaType}
      (h : (name, .item b) ∈ doc.requestBodyTable.entries) (content : (type, media) ∈ b.content)
      (schema : media.schema = some s)
  | response {name type : String} {r : Response} {media : MediaType}
      (h : (name, .item r) ∈ doc.responseTable.entries) (content : (type, media) ∈ r.content)
      (schema : media.schema = some s)
  | declared {name : String} (h : (name, s) ∈ doc.declaredSchemas)

/-- Nothing in an operation is a reference to a component. -/
structure Operation.Inlined (op : Operation) : Prop where
  parameters : ∀ p ∈ op.parameters, ∃ a, p = .item a
  requestBody : ∀ b, op.requestBody = some b → ∃ a, b = .item a
  responses : ∀ status r, (status, r) ∈ op.responses → ∃ a, r = .item a

structure PathItem.Inlined (item : PathItem) : Prop where
  parameters : ∀ p ∈ item.parameters, ∃ a, p = .item a
  operations : ∀ verb op, (verb, op) ∈ item.operations → op.Inlined

theorem ComponentTable.follow_eq_ok {α : Type} {table : ComponentTable α} {location : String}
    {r : Referenced α} {a : α} (h : table.follow location r = .ok a) :
    r = .item a ∨ ∃ name, (name, .item a) ∈ table.entries := by
  suffices chain : ∀ seen unvisited, (∀ p ∈ unvisited, p ∈ table.entries) →
      table.followFrom location seen unvisited r = .ok a →
        r = .item a ∨ ∃ name, (name, .item a) ∈ table.entries from
    chain [] table.entries (fun _ mem => mem) h
  clear h
  intro seen unvisited part h
  fun_induction followFrom table location seen unvisited r with
  | case1 seen unvisited b =>
    cases h
    exact .inl rfl
  | case2 => cases h
  | case3 => cases h
  | case4 => cases h
  | case5 seen unvisited path _ n _ _ b found =>
    cases h
    exact .inr ⟨n, Keyed.mem_of_find? found⟩
  | case6 => cases h
  | case7 seen unvisited path _ n _ _ next found _ ih =>
    have rest : ∀ p ∈ Keyed.erase n unvisited, p ∈ table.entries :=
      fun p mem => part p (List.mem_filter.mp mem).1
    rcases ih rest h with rfl | entry
    · exact .inr ⟨n, part _ (Keyed.mem_of_find? found)⟩
    · exact .inr entry

namespace Document

open Outcome

def Given (doc : Document) (s : SchemaRef) : Prop :=
  ∃ source location, doc.Gives source ∧ checkSchema doc.declares location source = .ok s

variable {doc : Document} {location : String}

theorem Given.checked {s : SchemaRef} (h : doc.Given s) : doc.Checked s := by
  obtain ⟨source, location, _, run⟩ := h
  exact ⟨source, location, run⟩

theorem checkOption_given {o : Option SchemaRef} {s : SchemaRef}
    (gives : ∀ t, o = some t → doc.Gives t) (h : doc.checkOption location o = .ok (some s)) :
    doc.Given s := by
  unfold checkOption at h
  split at h
  · cases h
  · rename_i source
    obtain ⟨checked, run, same⟩ := map_eq_ok.mp h
    cases same
    exact ⟨source, location ++ "/schema", gives source rfl, run⟩

theorem resolveParameter_given {r : Referenced Parameter} {p : Parameter} {s : SchemaRef}
    (gives : ∀ q t, r = .item q → q.schema = some t → doc.Gives t)
    (h : doc.resolveParameter location r = .ok p) (schema : p.schema = some s) : doc.Given s := by
  unfold resolveParameter at h
  simp only [bind_eq_ok, pure_eq_ok] at h
  obtain ⟨q, followed, checked, run, rfl⟩ := h
  subst schema
  refine checkOption_given (fun t given => ?_) run
  rcases ComponentTable.follow_eq_ok followed with own | ⟨_, entry⟩
  · exact gives q t own given
  · exact .parameter entry given

theorem resolveParameters_given {rs ps : List (Referenced Parameter)}
    (gives : ∀ q t, .item q ∈ rs → q.schema = some t → doc.Gives t)
    (h : doc.resolveParameters location rs = .ok ps) {r : Referenced Parameter} (mem : r ∈ ps) :
    ∃ p, r = .item p ∧ ∀ s, p.schema = some s → doc.Given s := by
  obtain ⟨⟨source, i⟩, listed, run⟩ := mem_of_mapM h mem
  obtain ⟨p, resolved, same⟩ := map_eq_ok.mp run
  refine ⟨p, same, fun s schema => resolveParameter_given (fun q t own => ?_) resolved schema⟩
  exact gives q t (own ▸ List.fst_mem_of_mem_zipIdx listed)

theorem resolveContent_given {content resolved : List (String × MediaType)}
    (gives : ∀ type media t, (type, media) ∈ content → media.schema = some t → doc.Gives t)
    (h : doc.resolveContent location content = .ok resolved) {type : String} {media : MediaType}
    {s : SchemaRef} (mem : (type, media) ∈ resolved) (schema : media.schema = some s) :
    doc.Given s := by
  obtain ⟨source, listed, run⟩ := mem_of_mapM h mem
  rw [bind_eq_ok] at run
  obtain ⟨checked, run, same⟩ := run
  rw [pure_eq_ok] at same
  cases same
  subst schema
  exact checkOption_given (fun t given => gives source.1 source.2 t listed given) run

theorem resolveRequestBody_given {r : Referenced RequestBody} {b : RequestBody}
    (gives : ∀ a type media t, r = .item a → (type, media) ∈ a.content → media.schema = some t →
      doc.Gives t)
    (h : doc.resolveRequestBody location r = .ok b) {type : String} {media : MediaType}
    {s : SchemaRef} (mem : (type, media) ∈ b.content) (schema : media.schema = some s) :
    doc.Given s := by
  unfold resolveRequestBody at h
  simp only [bind_eq_ok, pure_eq_ok] at h
  obtain ⟨a, followed, content, run, rfl⟩ := h
  refine resolveContent_given (fun type media t listed given => ?_) run mem schema
  rcases ComponentTable.follow_eq_ok followed with own | ⟨_, entry⟩
  · exact gives a type media t own listed given
  · exact .requestBody entry listed given

theorem resolveOptionalBody_given {o : Option (Referenced RequestBody)}
    {b : Referenced RequestBody}
    (gives : ∀ a type media t, o = some (.item a) → (type, media) ∈ a.content →
      media.schema = some t → doc.Gives t)
    (h : doc.resolveOptionalBody location o = .ok (some b)) :
    ∃ a, b = .item a ∧ ∀ type media s, (type, media) ∈ a.content → media.schema = some s →
      doc.Given s := by
  cases o with
  | none => cases h
  | some r =>
    obtain ⟨a, run, same⟩ := map_eq_ok.mp h
    cases same
    refine ⟨a, rfl, fun _ _ _ mem schema => resolveRequestBody_given ?_ run mem schema⟩
    intro c type media t own
    exact gives c type media t (congrArg some own)

theorem resolveResponse_given {r : Referenced Response} {answer : Response}
    (gives : ∀ a type media t, r = .item a → (type, media) ∈ a.content → media.schema = some t →
      doc.Gives t)
    (h : doc.resolveResponse location r = .ok answer) {type : String} {media : MediaType}
    {s : SchemaRef} (mem : (type, media) ∈ answer.content) (schema : media.schema = some s) :
    doc.Given s := by
  unfold resolveResponse at h
  simp only [bind_eq_ok, pure_eq_ok] at h
  obtain ⟨a, followed, content, run, rfl⟩ := h
  refine resolveContent_given (fun type media t listed given => ?_) run mem schema
  rcases ComponentTable.follow_eq_ok followed with own | ⟨_, entry⟩
  · exact gives a type media t own listed given
  · exact .response entry listed given

theorem resolveOperation_given {op resolved : Operation}
    (gives : ∀ t, op.Uses t → doc.Gives t) (h : doc.resolveOperation location op = .ok resolved) :
    resolved.Inlined ∧ ∀ s, resolved.Uses s → doc.Given s := by
  unfold resolveOperation at h
  simp only [bind_eq_ok, pure_eq_ok] at h
  obtain ⟨parameters, parameters_run, requestBody, body_run, responses, responses_run, rfl⟩ := h
  have params : ∀ p ∈ parameters, ∃ a, p = .item a ∧ ∀ s, a.schema = some s → doc.Given s := by
    intro p mem
    refine resolveParameters_given (fun q t listed schema => ?_) parameters_run mem
    exact gives t (.parameter listed schema)
  have body : ∀ b, requestBody = some b → ∃ a, b = .item a ∧
      ∀ type media s, (type, media) ∈ a.content → media.schema = some s → doc.Given s := by
    intro b given
    subst given
    refine resolveOptionalBody_given (fun a type media t own content schema => ?_) body_run
    exact gives t (.requestBody own content schema)
  have answers : ∀ status r, (status, r) ∈ responses → ∃ a, r = .item a ∧
      ∀ type media s, (type, media) ∈ a.content → media.schema = some s → doc.Given s := by
    intro status r mem
    obtain ⟨⟨name, source⟩, listed, run⟩ := mem_of_mapM responses_run mem
    rw [bind_eq_ok] at run
    obtain ⟨a, run, same⟩ := run
    rw [pure_eq_ok] at same
    cases same
    refine ⟨a, rfl, fun _ _ _ mem schema => resolveResponse_given ?_ run mem schema⟩
    intro c type media t own content schema
    have own : source = .item c := own
    subst own
    exact gives t (.response listed content schema)
  refine ⟨⟨?_, ?_, ?_⟩, fun s uses => ?_⟩
  · intro p mem
    obtain ⟨a, same, _⟩ := params p mem
    exact ⟨a, same⟩
  · intro b given
    obtain ⟨a, same, _⟩ := body b given
    exact ⟨a, same⟩
  · intro status r mem
    obtain ⟨a, same, _⟩ := answers status r mem
    exact ⟨a, same⟩
  · cases uses with
    | parameter mem schema =>
      obtain ⟨a, same, given⟩ := params _ mem
      cases same
      exact given s schema
    | requestBody own content schema =>
      obtain ⟨a, same, given⟩ := body _ own
      cases same
      exact given _ _ s content schema
    | response mem content schema =>
      obtain ⟨a, same, given⟩ := answers _ _ mem
      cases same
      exact given _ _ s content schema

theorem resolvePathItem_given {item resolved : PathItem}
    (gives : ∀ t, item.Uses t → doc.Gives t)
    (h : doc.resolvePathItem location item = .ok resolved) :
    resolved.Inlined ∧ ∀ s, resolved.Uses s → doc.Given s := by
  unfold resolvePathItem at h
  simp only [bind_eq_ok, pure_eq_ok] at h
  obtain ⟨parameters, parameters_run, operations, operations_run, rfl⟩ := h
  have params : ∀ p ∈ parameters, ∃ a, p = .item a ∧ ∀ s, a.schema = some s → doc.Given s := by
    intro p mem
    refine resolveParameters_given (fun q t listed schema => ?_) parameters_run mem
    exact gives t (.parameter listed schema)
  have each : ∀ verb op, (verb, op) ∈ operations →
      op.Inlined ∧ ∀ s, op.Uses s → doc.Given s := by
    intro verb op mem
    obtain ⟨⟨name, source⟩, listed, run⟩ := mem_of_mapM operations_run mem
    rw [bind_eq_ok] at run
    obtain ⟨_, run, same⟩ := run
    rw [pure_eq_ok] at same
    cases same
    exact resolveOperation_given (fun t uses => gives t (.operation listed uses)) run
  refine ⟨⟨?_, fun verb op mem => (each verb op mem).1⟩, fun s uses => ?_⟩
  · intro p mem
    obtain ⟨a, same, _⟩ := params p mem
    exact ⟨a, same⟩
  · cases uses with
    | parameter mem schema =>
      obtain ⟨a, same, given⟩ := params _ mem
      cases same
      exact given s schema
    | operation mem uses => exact (each _ _ mem).2 s uses

theorem resolvePaths_given {paths : List (String × PathItem)}
    (h : doc.resolvePaths = .ok paths) {route : String} {item : PathItem}
    (mem : (route, item) ∈ paths) : item.Inlined ∧ ∀ s, item.Uses s → doc.Given s := by
  obtain ⟨⟨name, source⟩, listed, run⟩ := mem_of_mapM h mem
  rw [bind_eq_ok] at run
  obtain ⟨_, run, same⟩ := run
  rw [pure_eq_ok] at same
  cases same
  exact resolvePathItem_given (fun t uses => .used (.path listed uses)) run

theorem resolveSchemas_checked {arena : Arena} (h : doc.resolveSchemas = .ok arena) :
    arena.names = Keyed.keys doc.declaredSchemas ∧
      ∀ n s, (n, s) ∈ arena.schemas → ∃ source, (n, source) ∈ doc.declaredSchemas ∧
        checkSchema doc.declares (Pointer.ofSchema n) source = .ok s := by
  unfold resolveSchemas at h
  simp only [bind_eq_ok, pure_eq_ok] at h
  obtain ⟨schemas, run, rfl⟩ := h
  have pairs : List.Forall₂ (fun (x y : String × SchemaRef) => x.1 = y.1 ∧
      checkSchema doc.declares (Pointer.ofSchema x.1) x.2 = .ok y.2)
      doc.declaredSchemas schemas := by
    refine (mapM_forall₂ run).imp fun x y step => ?_
    rw [bind_eq_ok] at step
    obtain ⟨s, checked, same⟩ := step
    rw [pure_eq_ok] at same
    subst same
    exact ⟨rfl, checked⟩
  constructor
  · unfold Arena.names Keyed.keys
    have firsts : List.Forall₂ (fun x y => Prod.fst x = Prod.fst y) doc.declaredSchemas schemas :=
      pairs.imp fun _ _ both => both.1
    rw [← List.forall₂_eq_eq_eq, List.forall₂_map_left_iff, List.forall₂_map_right_iff]
    exact firsts.flip.imp fun _ _ same => same.symm
  · intro n s mem
    obtain ⟨⟨m, source⟩, listed, same, checked⟩ := mem_of_forall₂ pairs mem
    cases same
    exact ⟨source, listed, checked⟩

end Document

theorem Schema.holds_keywords {s : Schema} {k : Keywords} {c : SchemaRef} :
    Schema.Holds { s with toKeywords := k } c ↔ s.Holds c := by
  rw [holds_iff_child, holds_iff_child]
  exact Iff.rfl

theorem holds_addTagValue {key : String} {s : Schema} {c : SchemaRef} :
    (addTagValue key s).Holds c ↔ s.Holds c := by
  unfold addTagValue
  split
  · exact Iff.rfl
  · exact Schema.holds_keywords

theorem not_holds_tagSchema {key : String} {s : Schema} {c : SchemaRef}
    (tag : tagSchema key = .item s) : ¬ s.Holds c := by
  cases tag
  rw [Schema.holds_iff_child]
  intro given
  obtain ⟨_, none⟩ := given
  cases none

theorem Schema.holds_injectTag {s : Schema} {property key : String} {first : Bool} {c : SchemaRef}
    (h : (s.injectTag property key first).Holds c) :
    s.Holds c ∨ c = tagSchema key ∨ ∃ p, s.Holds (.item p) ∧ c = .item (addTagValue key p) := by
  cases h with
  | property mem =>
    rcases Keyed.mem_insert mem with same | earlier
    · cases same
      split
      · rename_i p found
        exact .inr (.inr ⟨p, .property (Keyed.mem_of_find? found), rfl⟩)
      · exact .inr (.inl rfl)
    · exact .inl (.property earlier)
  | items given => exact .inl (.items given)
  | additional given => exact .inl (.additional given)
  | allOf mem => exact .inl (.allOf mem)
  | anyOf mem => exact .inl (.anyOf mem)
  | oneOf mem => exact .inl (.oneOf mem)
  | not given => exact .inl (.not given)
  | ifBranch given => exact .inl (.ifBranch given)
  | thenBranch given => exact .inl (.thenBranch given)
  | elseBranch given => exact .inl (.elseBranch given)
  | dependent mem => exact .inl (.dependent mem)
  | pattern mem => exact .inl (.pattern mem)
  | definition mem => exact .inl (.definition mem)

/-- A tag brings no reference in. -/
theorem Schema.mentions_injectTag {s : Schema} {property key path : String} {first : Bool}
    (h : SchemaRef.Mentions (.item (s.injectTag property key first)) path) :
    SchemaRef.Mentions (.item s) path := by
  cases h with
  | inside held h =>
    rcases holds_injectTag held with earlier | rfl | ⟨p, earlier, rfl⟩
    · exact .inside earlier h
    · cases h with
      | inside none => exact absurd none (not_holds_tagSchema rfl)
    · cases h with
      | inside inner h => exact .inside earlier (.inside (holds_addTagValue.mp inner) h)

namespace Injection

variable {i j : Injection} {n : String} {s : SchemaRef} {P : SchemaRef → Prop}

theorem add_inherits {e : MappingEntry}
    (tags : ∀ s property key first, P (.item (s.injectTag property key first)) → P (.item s))
    (step : i.add e = .ok j) (mem : (n, s) ∈ j.arena.schemas) (h : P s) :
    ∃ r, (n, r) ∈ i.arena.schemas ∧ P r := by
  obtain ⟨target, t, _, found, schemas, _⟩ := add_eq_ok step
  rw [schemas] at mem
  rcases Keyed.mem_insert mem with same | earlier
  · cases same
    exact ⟨.item t, Keyed.mem_of_find? found, tags _ _ _ _ h⟩
  · exact ⟨s, earlier, h⟩

theorem addAll_inherits {entries : List MappingEntry}
    (tags : ∀ s property key first, P (.item (s.injectTag property key first)) → P (.item s))
    (run : i.addAll entries = .ok j) (mem : (n, s) ∈ j.arena.schemas) (h : P s) :
    ∃ r, (n, r) ∈ i.arena.schemas ∧ P r := by
  induction entries generalizing i with
  | nil =>
    rw [addAll_nil] at run
    cases run
    exact ⟨s, mem, h⟩
  | cons e rest ih =>
    rw [addAll_cons] at run
    cases step : i.add e with
    | error => rw [step] at run; cases run
    | ok next =>
      rw [step] at run
      obtain ⟨r, listed, kept⟩ := ih run
      exact add_inherits tags step listed kept

end Injection

namespace Document

open Outcome

variable {doc : Document} {resolved : Resolved}

/-- A document can be resolved if its paths and schemas can, every name stands for a schema, and the
mappings of the discriminators have targets. -/
theorem resolve_eq_ok : doc.resolve = .ok resolved ↔
    ∃ paths arena i, doc.resolvePaths = .ok paths ∧ doc.resolveSchemas = .ok arena ∧
      (∀ n ∈ arena.names, ∃ t, arena.StandsFor n t) ∧ arena.injectDiscriminators = .ok i ∧
      resolved = ⟨{ doc with
        paths, components := doc.components.map fun _ => {}, definitions := [] }, i.arena⟩ := by
  have proper : ∀ arena : Arena, (arena.names.forM fun n => (arena.concrete n).map fun _ => ()) =
      .ok () ↔ ∀ n ∈ arena.names, ∃ t, arena.StandsFor n t := by
    intro arena
    rw [forM_eq_ok]
    refine forall₂_congr fun n _ => ?_
    simp only [map_eq_ok, and_true, Prod.exists, Arena.concrete_eq_ok]
    constructor
    · intro given
      obtain ⟨t, _, stands, _⟩ := given
      exact ⟨t, stands⟩
    · intro given
      obtain ⟨t, stands⟩ := given
      obtain ⟨s, stored⟩ := stands.2
      exact ⟨t, s, stands, stored⟩
  unfold resolve
  simp only [bind_eq_ok, pure_eq_ok, mapError_eq_ok, exists_and_left, ← proper]
  constructor
  · intro given
    obtain ⟨paths, paths_run, arena, arena_run, _, names, i, injected, same⟩ := given
    exact ⟨paths, paths_run, arena, arena_run, names, i, injected, same⟩
  · intro given
    obtain ⟨paths, paths_run, arena, arena_run, names, i, injected, same⟩ := given
    exact ⟨paths, paths_run, arena, arena_run, (), names, i, injected, same⟩

theorem resolve_names (h : doc.resolve = .ok resolved) :
    resolved.arena.names = Keyed.keys doc.declaredSchemas := by
  obtain ⟨_, arena, i, _, schemas, _, injected, rfl⟩ := resolve_eq_ok.mp h
  rw [(Arena.injectDiscriminators_tracks injected).names]
  exact (resolveSchemas_checked schemas).1

theorem resolve_arena_checked (h : doc.resolve = .ok resolved) {n : String} {s : SchemaRef}
    (mem : (n, s) ∈ resolved.arena.schemas) {path : String} (mentioned : s.Mentions path) :
    ∃ source, (n, source) ∈ doc.declaredSchemas ∧
      doc.CheckedSite source (Pointer.ofSchema n) path := by
  obtain ⟨_, arena, i, _, schemas, _, injected, rfl⟩ := resolve_eq_ok.mp h
  obtain ⟨r, listed, stands⟩ := Injection.addAll_inherits (P := fun r => r.Mentions path)
    (fun _ _ _ _ h => Schema.mentions_injectTag h) injected mem mentioned
  obtain ⟨source, declared, checked⟩ := (resolveSchemas_checked schemas).2 n r listed
  exact ⟨source, declared, checkedSite_of_check checked stands⟩

theorem resolve_paths_given (h : doc.resolve = .ok resolved) {route : String} {item : PathItem}
    (mem : (route, item) ∈ resolved.document.paths) :
    item.Inlined ∧ ∀ s, item.Uses s → doc.Given s := by
  obtain ⟨_, _, _, paths, _, _, _, rfl⟩ := resolve_eq_ok.mp h
  exact resolvePaths_given paths mem

theorem resolve_paths_checked (h : doc.resolve = .ok resolved) {route : String} {item : PathItem}
    (mem : (route, item) ∈ resolved.document.paths) :
    item.Inlined ∧ ∀ s, item.Uses s → doc.Checked s := by
  obtain ⟨inlined, given⟩ := resolve_paths_given h mem
  exact ⟨inlined, fun s uses => (given s uses).checked⟩

theorem resolve_uses_given (h : doc.resolve = .ok resolved) {s : SchemaRef}
    (uses : resolved.document.Uses s) : doc.Given s := by
  cases uses with
  | path mem uses => exact (resolve_paths_given h mem).2 s uses

theorem resolve_uses_checked (h : doc.resolve = .ok resolved) {s : SchemaRef}
    (uses : resolved.document.Uses s) : doc.Checked s := by
  cases uses with
  | path mem uses => exact (resolve_paths_checked h mem).2 s uses

theorem resolve_arena_canonical (h : doc.resolve = .ok resolved) {n : String} {s : SchemaRef}
    (mem : (n, s) ∈ resolved.arena.schemas) {path : String} (mentioned : s.Mentions path) :
    resolved.arena.Canonical path := by
  obtain ⟨_, _, site⟩ := resolve_arena_checked h mem mentioned
  exact site.canonical (resolve_names h)

theorem resolve_uses_canonical (h : doc.resolve = .ok resolved) {s : SchemaRef}
    (uses : resolved.document.Uses s) {path : String} (mentioned : s.Mentions path) :
    resolved.arena.Canonical path := by
  obtain ⟨_, _, run⟩ := resolve_uses_checked h uses
  exact (checkedSite_of_check run mentioned).canonical (resolve_names h)

/-- After resolution every reference names a stored schema in the one spelling, nothing in the paths
is a reference to a component, and whatever the readers come across was checked. -/
theorem resolve_references (h : doc.resolve = .ok resolved) :
    (∀ n s, (n, s) ∈ resolved.arena.schemas → ∀ path, s.Mentions path →
      resolved.arena.Canonical path) ∧
    (∀ s, resolved.document.Uses s → ∀ path, s.Mentions path → resolved.arena.Canonical path) ∧
    (∀ route item, (route, item) ∈ resolved.document.paths → item.Inlined) ∧
    (∀ n s, (n, s) ∈ resolved.arena.schemas → ∀ path, s.Shows path →
      ∃ source, (n, source) ∈ doc.declaredSchemas ∧
        doc.CheckedSite source (Pointer.ofSchema n) path) ∧
    (∀ s, resolved.document.Uses s → ∃ source location,
      checkSchema doc.declares location source = .ok s ∧
        ∀ path, s.Shows path → doc.CheckedSite source location path) := by
  refine ⟨?_, ?_, fun _ _ mem => (resolve_paths_checked h mem).1, ?_, ?_⟩
  · intro n s mem path mentioned
    exact resolve_arena_canonical h mem mentioned
  · intro s uses path mentioned
    exact resolve_uses_canonical h uses mentioned
  · intro n s mem path shown
    exact resolve_arena_checked h mem (SchemaRef.shows_iff.mp shown)
  · intro s uses
    obtain ⟨source, location, run⟩ := resolve_uses_checked h uses
    refine ⟨source, location, run, fun path shown => ?_⟩
    exact checkedSite_of_check run (SchemaRef.shows_iff.mp shown)

def shopOperation (path : String) : Operation :=
  { requestBody := some (.item { content := [("text/json", { schema := some (.ref path) })] }) }

def shopPaths (path : String) : List (String × PathItem) :=
  [("/pets", { operations := [(.get, shopOperation path)] })]

def shopSchema (path : String) : Schema := { items := some (.ref path) }

def shop : Document where
  openapi := "3.0.3"
  info := { title := "Shop", version := "1" }
  paths := shopPaths "#/definitions/pets~1Pet"
  definitions := [("pets/Pet", .item (shopSchema "#/definitions/pets~1Pet"))]

theorem shop_name : Pointer.schemaName? "#/definitions/pets~1Pet" = some "pets/Pet" := by decide

theorem shop_respelled :
    normalReference "#/definitions/pets~1Pet" = "#/components/schemas/pets~1Pet" := by
  unfold normalReference
  rw [shop_name]
  decide

theorem shop_check {location : String} {s : SchemaRef}
    (h : ∀ path, s.Mentions path → path = "#/definitions/pets~1Pet") :
    checkSchema shop.declares location s = .ok (normalRef s) := by
  apply checkSchema_of_named
  intro path mentioned
  rw [h path mentioned]
  exact ⟨_, shop_name, by decide⟩

theorem shop_paths : shop.resolvePaths = .ok (shopPaths "#/components/schemas/pets~1Pet") := by
  have checked : ∀ location, checkSchema shop.declares location (.ref "#/definitions/pets~1Pet") =
      .ok (.ref "#/components/schemas/pets~1Pet") := by
    intro location
    rw [shop_check, normalRef, shop_respelled]
    intro path mentioned
    cases mentioned
    rfl
  have operation : ∀ location, shop.resolveOperation location
      (shopOperation "#/definitions/pets~1Pet") =
        .ok (shopOperation "#/components/schemas/pets~1Pet") := by
    intro location
    simp [shopOperation, resolveOperation, resolveParameters, resolveOptionalBody,
      resolveRequestBody, ComponentTable.follow, ComponentTable.followFrom, resolveContent,
      checkOption, checked, bind, Except.bind, Except.map, pure, Except.pure]
  show [("/pets", _)].mapM _ = _
  simp only [resolvePathItem, resolveParameters, List.mapM_cons, List.mapM_nil, operation, bind,
    Except.bind, Except.map, pure, Except.pure, List.zipIdx_nil]
  rfl

theorem shop_schemas : shop.resolveSchemas =
    .ok ⟨[("pets/Pet", .item (shopSchema "#/components/schemas/pets~1Pet"))]⟩ := by
  have checked : ∀ location, checkSchema shop.declares location
      (.item (shopSchema "#/definitions/pets~1Pet")) =
        .ok (.item (shopSchema "#/components/schemas/pets~1Pet")) := by
    intro location
    rw [shop_check]
    · simp [shopSchema, normalRef, normalSchema, normalTable, normalList, normalOption,
        normalAdditional, shop_respelled]
    · intro path mentioned
      cases mentioned with
      | inside held mentioned =>
        obtain ⟨_, child⟩ := Schema.holds_iff_child.mp held
        cases child with
        | head => cases mentioned; rfl
        | tail _ none => cases none
  show ([("pets/Pet", _)].mapM _ >>= _) = _
  simp only [List.mapM_cons, List.mapM_nil, checked, bind, Except.bind, pure, Except.pure]

theorem resolve_references_shop : ∃ resolved, shop.resolve = .ok resolved ∧
    resolved.document.Uses (.ref "#/components/schemas/pets~1Pet") ∧
    resolved.arena.Canonical "#/components/schemas/pets~1Pet" := by
  let schema := shopSchema "#/components/schemas/pets~1Pet"
  let arena : Arena := ⟨[("pets/Pet", .item schema)]⟩
  have children : schema.children = [(.items, .ref "#/components/schemas/pets~1Pet")] := rfl
  have concrete : arena.concrete "pets/Pet" = .ok ("pets/Pet", schema) :=
    Arena.concrete_eq_ok.mpr ⟨.item rfl, rfl⟩
  have injected : arena.injectDiscriminators = .ok ⟨arena, []⟩ := by
    have none : arena.mappingEntries = [] := by
      unfold Arena.mappingEntries
      simp only [arena, List.flatMap_cons, List.flatMap_nil, SchemaRef.inlined_item, children,
        SchemaRef.inlined]
      rfl
    unfold Arena.injectDiscriminators
    rw [none]
    rfl
  have proper : (arena.names.forM fun n => (arena.concrete n).map fun _ => ()) = .ok () := by
    show ((arena.concrete "pets/Pet").map _ >>= fun _ => pure ()) = _
    rw [concrete]
    rfl
  have run : shop.resolve = .ok ⟨{ shop with
      paths := shopPaths "#/components/schemas/pets~1Pet", definitions := [] }, arena⟩ := by
    refine bind_eq_ok.mpr ⟨_, shop_paths, bind_eq_ok.mpr ⟨_, shop_schemas, ?_⟩⟩
    refine bind_eq_ok.mpr ⟨_, proper, bind_eq_ok.mpr ⟨⟨arena, []⟩, ?_, rfl⟩⟩
    rw [injected]
    rfl
  have body : (shopOperation "#/components/schemas/pets~1Pet").Uses
      (.ref "#/components/schemas/pets~1Pet") := .requestBody rfl List.mem_cons_self rfl
  have item : PathItem.Uses { operations := [(.get, shopOperation _)] } _ :=
    .operation List.mem_cons_self body
  have used : Uses { shop with paths := shopPaths _, definitions := [] } _ :=
    .path List.mem_cons_self item
  exact ⟨_, run, used, (resolve_references run).2.1 _ used _ (.here _)⟩

end Document

end TypedClients
