import TypedClients.Operation.Responses
import TypedClients.Proofs.Composition
import TypedClients.Proofs.Keyed

namespace TypedClients

def SchemaRef.MentionsModel (r : SchemaRef) (m : String) : Prop :=
  ∃ path, r.Mentions path ∧ m = refTypeName path

theorem SchemaRef.MentionsModel.inside {s : Schema} {c : SchemaRef} {m : String}
    (h : c.MentionsModel m) (held : s.Holds c) : MentionsModel (.item s) m := by
  obtain ⟨path, mentioned, same⟩ := h
  exact ⟨path, .inside held mentioned, same⟩

namespace TypeExpr

variable {m : String} {t : TypeExpr} {ts : List TypeExpr} {r : SchemaRef}

theorem mem_refsOfList : m ∈ refsOfList ts ↔ ∃ t ∈ ts, m ∈ t.refs := by
  induction ts with
  | nil => simp [refsOfList]
  | cons t rest ih => simp [refsOfList, ih]

theorem mem_refsOfFields {fields : List (String × TypeExpr × Bool)} :
    m ∈ refsOfFields fields ↔ ∃ f ∈ fields, m ∈ f.2.1.refs := by
  induction fields with
  | nil => simp [refsOfFields]
  | cons f rest ih =>
    obtain ⟨_, t, _⟩ := f
    simp [refsOfFields, ih]

def Within (t : TypeExpr) (r : SchemaRef) : Prop := ∀ m ∈ t.refs, r.MentionsModel m

theorem Within.plain (h : t.refs = []) : t.Within r := by
  intro m mem
  rw [h] at mem
  cases mem

end TypeExpr

theorem within_composes : Composes fun r t => t.Within r where
  inside held h := fun m mem => (h m mem).inside held
  reference path := fun m mem => ⟨path, .here path, List.mem_singleton.mp mem⟩
  atom _ plain := .plain plain
  array h := h
  map h := h
  object h := by
    intro m mem
    obtain ⟨f, listed, mem⟩ := TypeExpr.mem_refsOfFields.mp mem
    exact h f listed m mem
  union _ h := by
    intro m mem
    obtain ⟨t, listed, mem⟩ := TypeExpr.mem_refsOfList.mp mem
    exact h t listed m mem
  members h := fun t listed m mem => h m (TypeExpr.mem_refsOfList.mpr ⟨t, listed, mem⟩)
  intersection _ h := by
    intro m mem
    obtain ⟨t, listed, mem⟩ := TypeExpr.mem_refsOfList.mp mem
    exact h t listed m mem

theorem SchemaRef.typeExpr_within (r : SchemaRef) : r.typeExpr.Within r :=
  within_composes.typeExpr r

theorem schemaType_refs {o : Option SchemaRef} {m : String} (h : m ∈ (schemaType o).refs) :
    ∃ r, o = some r ∧ r.MentionsModel m := by
  cases o with
  | none => cases h
  | some r => exact ⟨r, rfl, r.typeExpr_within m h⟩

def ModelBody.Within (r : SchemaRef) : ModelBody → Prop
  | .object fields extra => (∀ f ∈ fields, f.type.Within r) ∧ ∀ t, extra = some t → t.Within r
  | .enumeration _ _ => True
  | .union variants _ => ∀ t ∈ variants, t.Within r
  | .alias t => t.Within r

theorem Model.refs_within {m : Model} {r : SchemaRef} (within : m.body.Within r) {name : String}
    (h : name ∈ m.refs) : r.MentionsModel name := by
  unfold refs at h
  rw [Names.mem_ofList] at h
  cases body : m.body with
  | object fields extra =>
    rw [body] at h within
    rcases List.mem_append.mp h with h | h
    · obtain ⟨f, listed, h⟩ := List.mem_flatMap.mp h
      exact within.1 f listed name h
    · cases extra with
      | none => cases h
      | some t => exact within.2 t rfl name h
  | enumeration values nullable =>
    rw [body] at h
    cases h
  | union variants d =>
    rw [body] at h within
    obtain ⟨t, listed, h⟩ := List.mem_flatMap.mp h
    exact within t listed name h
  | «alias» t =>
    rw [body] at h within
    exact within name h

namespace Schema

variable {s : Schema}

theorem extraType_within {t : TypeExpr} (h : s.extraType = some t) : t.Within (.item s) := by
  unfold extraType at h
  split at h
  · rename_i a given
    cases h
    exact within_composes.inside (.additional given) (SchemaRef.typeExpr_within a)
  · cases h
    exact .plain rfl
  · cases h

theorem members_within {members : List SchemaRef} (held : ∀ c ∈ members, s.Holds c) :
    ∀ t ∈ members.map SchemaRef.typeExpr, t.Within (.item s) := by
  intro t mem
  obtain ⟨c, listed, rfl⟩ := List.mem_map.mp mem
  exact within_composes.inside (held c listed) c.typeExpr_within

theorem modelBody_within (s : Schema) : s.modelBody.Within (.item s) := by
  have fields := within_composes.fields fun c (_ : s.Holds c) => within_composes.bears c
  have flatFields := within_composes.flatFields fun c (_ : s.Holds c) => within_composes.bears c
  have whole : s.typeExpr.Within (.item s) :=
    SchemaRef.typeExpr_item s ▸ SchemaRef.typeExpr_within (.item s)
  have alternatives : ∀ c ∈ (if s.oneOf.isEmpty then s.anyOf else s.oneOf), s.Holds c := by
    intro c listed
    split at listed
    · exact .anyOf listed
    · exact .oneOf listed
  unfold modelBody
  generalize (if s.oneOf.isEmpty then s.anyOf else s.oneOf) = members at alternatives
  have variants := members_within alternatives
  dsimp only
  split
  · exact True.intro
  · split
    · intro t mem
      split at mem
      · rcases List.mem_append.mp mem with variant | null
        · exact variants t variant
        · exact List.mem_singleton.mp null ▸ .plain rfl
      · exact variants t mem
    · split
      · refine ⟨flatFields, fun t none => ?_⟩
        cases none
      · split
        · exact ⟨fields, fun t extra => extraType_within extra⟩
        · exact whole

end Schema

theorem Model.ofSchema_refs {name m : String} {r : SchemaRef}
    (h : m ∈ (Model.ofSchema name r).refs) : r.MentionsModel m := by
  apply Model.refs_within _ h
  cases r with
  | ref path =>
    have within := SchemaRef.typeExpr_within (.ref path)
    rw [SchemaRef.typeExpr] at within
    exact within
  | item s => exact s.modelBody_within

end TypedClients
