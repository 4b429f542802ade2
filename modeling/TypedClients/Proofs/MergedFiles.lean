import Mathlib.Data.List.Forall2
import TypedClients.Proofs.Initialization

namespace TypedClients

open Zod

section

variable {α β : Type} {a b : α} {as : List α} {bs : List β}

theorem not_both_orders (distinct : as.Nodup) (first : [a, b].Sublist as) :
    ¬ [b, a].Sublist as := by
  induction as with
  | nil => simp at first
  | cons c rest ih =>
    intro second
    obtain ⟨fresh, distinct⟩ := List.nodup_cons.mp distinct
    cases first with
    | cons _ first =>
      cases second with
      | cons _ second => exact ih distinct first second
      | cons_cons _ _ => exact fresh (first.subset (by simp))
    | cons_cons _ tail =>
      cases second with
      | cons _ second => exact fresh (second.subset (by simp))
      | cons_cons _ _ => exact fresh (tail.subset (by simp))

theorem pair_sublist {names : List String} {m n : String} (increasing : names.Pairwise (· < ·))
    (first : m ∈ names) (second : n ∈ names) (less : m < n) : [m, n].Sublist names := by
  induction names with
  | nil => cases first
  | cons k rest ih =>
    obtain ⟨least, increasing⟩ := List.pairwise_cons.mp increasing
    rcases List.mem_cons.mp first with rfl | m_later
    · rcases List.mem_cons.mp second with rfl | n_later
      · exact absurd less (String.lt_irrefl _)
      · exact (List.singleton_sublist.mpr n_later).cons_cons _
    · rcases List.mem_cons.mp second with rfl | n_later
      · exact absurd (String.lt_trans less (least m m_later)) (String.lt_irrefl _)
      · exact (ih increasing m_later n_later).cons _

theorem mergeSort_stable {le : String → String → Bool} {names : List String}
    (trans : ∀ a b c, le a b → le b c → le a c) (total : ∀ a b, (le a b || le b a) = true)
    (increasing : names.Pairwise (· < ·)) :
    (names.mergeSort le).Pairwise fun a b => le a b = true ∧ (le b a = true → a < b) := by
  have perm := List.mergeSort_perm names le
  have distinct : (names.mergeSort le).Nodup :=
    perm.nodup_iff.mpr (increasing.imp String.ne_of_lt)
  rw [List.pairwise_iff_forall_sublist]
  intro a b pair
  have sorted := List.pairwise_mergeSort trans total names
  have ordered := List.pairwise_iff_forall_sublist.mp sorted pair
  refine ⟨ordered, fun tie => ?_⟩
  have a_mem : a ∈ names := perm.mem_iff.mp (pair.subset (by simp))
  have b_mem : b ∈ names := perm.mem_iff.mp (pair.subset (by simp))
  by_contra not_less
  have different : a ≠ b := by
    have apart := distinct.sublist pair
    simpa using apart
  have greater : b < a := by
    by_contra not_greater
    exact different (String.le_antisymm (String.not_lt.mp not_greater) (String.not_lt.mp not_less))
  -- The two stood in the other order before, which sorting would have kept.
  have back := List.pair_sublist_mergeSort trans total tie
    (pair_sublist increasing b_mem a_mem greater)
  exact not_both_orders distinct pair back

theorem forall₂_mergeSort {R : α → β → Prop} {r : α → α → Bool} {s : β → β → Bool}
    (h : List.Forall₂ R as bs) (agree : ∀ a b c d, R a b → R c d → r a c = s b d) :
    List.Forall₂ R (as.mergeSort r) (bs.mergeSort s) := by
  let pairs := as.zip bs
  let t : α × β → α × β → Bool := fun p q => r p.1 q.1
  have related : ∀ p ∈ pairs, R p.1 p.2 := fun p mem => (List.forall₂_iff_zip.mp h).2 mem
  have left : pairs.map Prod.fst = as := List.map_fst_zip h.length_eq.le
  have right : pairs.map Prod.snd = bs := List.map_snd_zip h.length_eq.ge
  have as_sorted : (pairs.mergeSort t).map Prod.fst = as.mergeSort r := by
    rw [← left]
    exact List.map_mergeSort fun p _ q _ => rfl
  have bs_sorted : (pairs.mergeSort t).map Prod.snd = bs.mergeSort s := by
    rw [← right]
    exact List.map_mergeSort fun p first q second =>
      agree p.1 p.2 q.1 q.2 (related p first) (related q second)
  rw [← as_sorted, ← bs_sorted, List.forall₂_map_left_iff, List.forall₂_map_right_iff,
    List.forall₂_same]
  exact fun p mem => related p ((List.mergeSort_perm pairs t).mem_iff.mp mem)

theorem position_lt_iff {R : α → α → Prop} (asymm : ∀ a b, R a b → ¬ R b a)
    (ordered : as.Pairwise R) {i j : Nat} (at_i : as[i]? = some a) (at_j : as[j]? = some b) :
    j < i ↔ R b a := by
  constructor
  · intro behind
    obtain ⟨hi, rfl⟩ := List.getElem?_eq_some_iff.mp at_i
    obtain ⟨hj, rfl⟩ := List.getElem?_eq_some_iff.mp at_j
    exact List.pairwise_iff_getElem.mp ordered j i hj hi behind
  · intro before
    refine lt_of_pairwise ordered at_j at_i ?_ (asymm _ _ before)
    rintro rfl
    exact asymm _ _ before before

end

theorem names_of_forall₂ {R : String → ModelEntry → Prop} {models : List String}
    {entries : List ModelEntry} (h : List.Forall₂ R models entries)
    (named : ∀ n e, R n e → e.name = modelName n) :
    entries.map ModelEntry.name = models.map modelName := by
  have pairs : List.Forall₂ (fun n (e : ModelEntry) => e.name = modelName n) models entries :=
    h.imp named
  rw [← List.forall₂_eq_eq_eq, List.forall₂_map_left_iff, List.forall₂_map_right_iff]
  exact pairs.flip

namespace ModelContext

variable {c : ModelContext} {names : List String} {entries : List ModelEntry}
  {f : ModelFile} {path : String}

/-- Where the entry of a model is put: by its path and, on one path, by its name. -/
def place (c : ModelContext) (n : String) : ModelEntry :=
  { name := modelName n, path := c.path n, declaration := "" }

def Precedes (c : ModelContext) (a b : String) : Prop :=
  (c.place a).before (c.place b) = true ∧ ((c.place b).before (c.place a) = true → a < b)

theorem Precedes.asymm {a b : String} (h : c.Precedes a b) : ¬ c.Precedes b a := by
  intro back
  have less : a < b := h.2 back.1
  have more : b < a := back.2 h.1
  exact String.lt_irrefl _ (String.lt_trans less more)

def merged (c : ModelContext) (names : List String) (path : String) : List String :=
  (names.filter fun n => Text.lower (c.path n) == Text.lower path).mergeSort
    fun a b => (c.place a).before (c.place b)

theorem mem_merged {n : String} :
    n ∈ c.merged names path ↔ n ∈ names ∧ Text.lower (c.path n) = Text.lower path := by
  simp [merged]

theorem merged_precedes (increasing : names.Pairwise (· < ·)) :
    (c.merged names path).Pairwise c.Precedes := by
  apply mergeSort_stable
  · exact fun a b d => ModelEntry.before_trans
  · intro a b
    rw [Bool.or_eq_true]
    exact ModelEntry.before_total _ _
  · exact increasing.filter _

theorem merged_entries {R : String → ModelEntry → Prop} (h : List.Forall₂ R names entries)
    (placed : ∀ n e, R n e → e.name = modelName n ∧ e.path = c.path n)
    (file : f ∈ ModelFile.assemble entries) :
    List.Forall₂ R (c.merged names f.path) f.entries := by
  have sorted : f.entries = (ModelFile.sharing entries f.path).mergeSort ModelEntry.before :=
    congrArg ModelFile.entries (ModelFile.mem_assemble.mp file).2
  have kept : List.Forall₂ R
      (names.filter fun n => Text.lower (c.path n) == Text.lower f.path)
      (ModelFile.sharing entries f.path) := by
    refine List.rel_filter ?_ h
    intro n e given
    show (Text.lower (c.path n) == _) = true ↔ (Text.lower e.path == _) = true
    rw [(placed n e given).2]
  rw [sorted]
  refine forall₂_mergeSort kept ?_
  intro a d b e first second
  obtain ⟨a_name, a_path⟩ := placed a d first
  obtain ⟨b_name, b_path⟩ := placed b e second
  unfold ModelEntry.before place
  rw [a_name, a_path, b_name, b_path]

theorem merged_nodup (increasing : names.Pairwise (· < ·)) : (c.merged names path).Nodup := by
  refine (merged_precedes increasing).imp fun {a b} before same => ?_
  rw [same] at before
  exact before.asymm before

end ModelContext

namespace Document

/-- In which order a file declares the models that are merged into it. Where every model is meant
to have a file of its own, a reference is put off only if it leads back, and not because another
model comes later in the same file. -/
theorem resolve_models_merged {doc : Document} {resolved : Resolved}
    (h : doc.resolve = .ok resolved) (target : Target) (fileStem : String)
    (roots : List SchemaRef) :
    let c : ModelContext := ⟨resolved.arena, target, fileStem⟩
    let emitted := emitModels Zod.emitter c (resolved.arena.reachable roots)
    emitted.2 = [] ∧
    (target.mode.splitsModels = true → ∀ a b path, Pointer.schemaName? path = some b →
      ((modelScope c a).namedModel (some a) c.sharedFile path = .ok (.ofModel (modelName b)) ↔
        ¬ (b = a ∨ Relation.TransGen c.arena.Edge b a))) ∧
    ∀ f ∈ ModelFile.assemble emitted.1,
      let models := c.merged (resolved.arena.reachable roots) f.path
      models.Pairwise c.Precedes ∧
      List.Forall₂ (fun a e => ∃ s v, c.arena.find? a = some s ∧
        (modelScope c a).validate s (modelName a) true = .ok v ∧ modelEntry c a s = .ok e ∧
        ∀ i, i ∈ v.chain.bare ↔ ∃ b, c.RefersEagerly a b ∧ modelName b = i) models f.entries ∧
      ((∀ (i j : Nat) (a b : String), models[i]? = some a → models[j]? = some b →
          c.RefersEagerly a b → j < i) ↔
        ∀ a ∈ models, ∀ b ∈ models, c.RefersEagerly a b → c.Precedes b a) := by
  intro c emitted
  have proper : c.Proper := resolve_proper h target fileStem
  have closed := resolved.arena.reachable_closed roots
  obtain ⟨clean, entries⟩ := ModelContext.emitModels_bare proper closed.stored
  refine ⟨clean, fun split a b path named => ?_, fun f file => ?_⟩
  · have apart : c.sharedFile = false := by simp [c, ModelContext.sharedFile, split]
    have put : c.defers a b = (modelScope c a).leadsBack a b := by
      rw [ModelContext.defers, apart, Bool.false_and, Bool.or_false]
    rw [ModelContext.namedModel_bare named, put, ← ModelContext.leadsBack_iff, Bool.not_eq_true]
  · have ordered : (c.merged (resolved.arena.reachable roots) f.path).Pairwise c.Precedes :=
      ModelContext.merged_precedes (resolved.arena.reachable_increasing roots)
    refine ⟨ordered, ?_, ?_⟩
    · refine ModelContext.merged_entries entries ?_ file
      rintro n e ⟨s, v, _, _, made, _⟩
      exact ⟨(modelEntry_eq_ok made).1, (modelEntry_eq_ok made).2.1⟩
    · have position : ∀ {i j : Nat} {a b : String}, _ → _ → (j < i ↔ c.Precedes b a) :=
        fun at_i at_j => position_lt_iff (fun _ _ => ModelContext.Precedes.asymm) ordered at_i at_j
      constructor
      · intro behind a first b second eager
        obtain ⟨i, at_i⟩ := List.mem_iff_getElem?.mp first
        obtain ⟨j, at_j⟩ := List.mem_iff_getElem?.mp second
        exact (position at_i at_j).mp (behind i j a b at_i at_j eager)
      · intro behind i j a b at_i at_j eager
        exact (position at_i at_j).mpr (behind a (List.mem_of_getElem? at_i) b
          (List.mem_of_getElem? at_j) eager)

def accounts : Document where
  openapi := "3.0.3"
  info := { title := "Accounts", version := "1" }
  components := some { schemas := [("Username", .item {}),
    ("UserName", .item (holder "login" "#/components/schemas/Username"))] }

theorem accounts_precedes (arena : Arena) :
    ModelContext.Precedes ⟨arena, { mode := .operations }, ""⟩ "UserName" "Username" := by
  have first : modelPath .operations "" "UserName" = "model/userName.ts" := by decide +kernel
  have second : modelPath .operations "" "Username" = "model/username.ts" := by decide +kernel
  refine ⟨ModelEntry.before_iff.mpr (.inl ?_), fun _ => by decide⟩
  show modelPath .operations "" "UserName" < modelPath .operations "" "Username"
  rw [first, second]
  decide

theorem resolve_models_merged_accounts : ∃ (resolved : Resolved) (f : ModelFile) (i j : Nat),
    accounts.resolve = .ok resolved ∧
    f ∈ ModelFile.assemble (emitModels Zod.emitter ⟨resolved.arena, { mode := .operations }, ""⟩
      (resolved.arena.reachable [.ref "#/components/schemas/UserName"])).1 ∧
    i < j ∧ (f.entries.map ModelEntry.name)[i]? = some "UserName" ∧
    (f.entries.map ModelEntry.name)[j]? = some "Username" ∧
    ModelContext.RefersEagerly ⟨resolved.arena, { mode := .operations }, ""⟩
      "UserName" "Username" := by
  have named : Pointer.schemaName? "#/components/schemas/Username" = some "Username" := by decide
  have resolves : ∃ resolved, accounts.resolve = .ok resolved ∧ resolved.arena.schemas = _ :=
    ⟨_, resolve_holder (resolvePaths_nil rfl) rfl rfl named (by decide), rfl⟩
  obtain ⟨resolved, run, schemas⟩ := resolves
  let c : ModelContext := ⟨resolved.arena, { mode := .operations }, ""⟩
  let roots : List SchemaRef := [.ref "#/components/schemas/UserName"]
  have eager : c.RefersEagerly "UserName" "Username" :=
    ModelContext.holder_eager schemas named (by decide) rfl
  have proper : c.Proper := resolve_proper run { mode := .operations } ""
  have closed := resolved.arena.reachable_closed roots
  have outer : "UserName" ∈ resolved.arena.reachable roots := by
    apply closed.roots _ List.mem_cons_self
    · rw [Arena.names, schemas]
      decide
    · exact .reference (.here _) (by decide)
  have inner : "Username" ∈ resolved.arena.reachable roots := by
    obtain ⟨s, found, refers, known⟩ := eager.edge proper
    exact closed.members _ outer s found _ known refers
  obtain ⟨_, entries⟩ := ModelContext.emitModels_bare proper closed.stored
  obtain ⟨e, emitted, s, _, _, _, made, _⟩ := Outcome.mem_of_forall₂ entries.flip outer
  obtain ⟨f, file, own⟩ := ModelFile.mem_of_assemble emitted
  have outer_path : Text.lower (c.path "UserName") = Text.lower f.path := by
    rw [← (modelEntry_eq_ok made).2.1]
    exact ((ModelFile.mem_entries file).mp own).2
  have inner_path : Text.lower (c.path "Username") = Text.lower f.path := by
    rw [← outer_path]
    show Text.lower (modelPath .operations "" _) = Text.lower (modelPath .operations "" _)
    decide +kernel
  obtain ⟨_, _, merged⟩ := resolve_models_merged run { mode := .operations } "" roots
  obtain ⟨ordered, models, _⟩ := merged f file
  obtain ⟨i, at_i⟩ := List.mem_iff_getElem?.mp (ModelContext.mem_merged.mpr ⟨outer, outer_path⟩)
  obtain ⟨j, at_j⟩ := List.mem_iff_getElem?.mp (ModelContext.mem_merged.mpr ⟨inner, inner_path⟩)
  have before : i < j := (position_lt_iff (fun _ _ => ModelContext.Precedes.asymm) ordered at_j
    at_i).mpr (accounts_precedes resolved.arena)
  have names : f.entries.map ModelEntry.name =
      (c.merged (resolved.arena.reachable roots) f.path).map modelName := by
    apply names_of_forall₂ models
    rintro n e ⟨_, _, _, _, made, _⟩
    exact (modelEntry_eq_ok made).1
  have outer_name : modelName "UserName" = "UserName" := by decide +kernel
  have inner_name : modelName "Username" = "Username" := by decide +kernel
  refine ⟨resolved, f, i, j, run, file, before, ?_, ?_, eager⟩
  · rw [names, List.getElem?_map, at_i, Option.map_some, outer_name]
  · rw [names, List.getElem?_map, at_j, Option.map_some, inner_name]

end Document

end TypedClients
