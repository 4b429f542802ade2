import Mathlib.Tactic.Ring
import TypedClients.Proofs.TypeTrees

namespace TypedClients.TypeScript

namespace TypeTree

mutual

def leaves : TypeTree → Nat
  | .name _ => 1
  | .literal _ => 1
  | .array t => leaves t
  | .record t => leaves t
  | .object fields => 1 + leavesOfFields fields
  | .union ts => leavesOfList ts
  | .intersection ts => leavesOfList ts

def leavesOfList : List TypeTree → Nat
  | [] => 0
  | t :: rest => leaves t + leavesOfList rest

def leavesOfFields : List (String × TypeTree × Bool) → Nat
  | [] => 0
  | (_, t, _) :: rest => leaves t + leavesOfFields rest

end

mutual

def weight : TypeTree → Nat
  | .name _ => 0
  | .literal _ => 0
  | .array t => leaves t + weight t
  | .record t => weight t
  | .object fields => weightOfFields fields
  | .union ts => weightOfList ts
  | .intersection ts => weightOfProduct ts

def weightOfList : List TypeTree → Nat
  | [] => 0
  | t :: rest => weight t + weightOfList rest

def weightOfProduct : List TypeTree → Nat
  | [] => 0
  | t :: rest => weight t + leaves t * leavesOfList rest + weightOfProduct rest

def weightOfFields : List (String × TypeTree × Bool) → Nat
  | [] => 0
  | (_, t, _) :: rest => weight t + weightOfFields rest

end

variable (ts us : List TypeTree) (fields more : List (String × TypeTree × Bool))

@[simp] theorem leavesOfList_append :
    leavesOfList (ts ++ us) = leavesOfList ts + leavesOfList us := by
  induction ts with
  | nil => simp [leavesOfList]
  | cons t rest ih => simp [leavesOfList, ih, Nat.add_assoc]

@[simp] theorem leavesOfFields_append :
    leavesOfFields (fields ++ more) = leavesOfFields fields + leavesOfFields more := by
  induction fields with
  | nil => simp [leavesOfFields]
  | cons f rest ih =>
    obtain ⟨name, t, required⟩ := f
    simp [leavesOfFields, ih, Nat.add_assoc]

@[simp] theorem weightOfList_append :
    weightOfList (ts ++ us) = weightOfList ts + weightOfList us := by
  induction ts with
  | nil => simp [weightOfList]
  | cons t rest ih => simp [weightOfList, ih, Nat.add_assoc]

@[simp] theorem weightOfFields_append :
    weightOfFields (fields ++ more) = weightOfFields fields + weightOfFields more := by
  induction fields with
  | nil => simp [weightOfFields]
  | cons f rest ih =>
    obtain ⟨name, t, required⟩ := f
    simp [weightOfFields, ih, Nat.add_assoc]

@[simp] theorem weightOfProduct_append : weightOfProduct (ts ++ us) =
    weightOfProduct ts + leavesOfList ts * leavesOfList us + weightOfProduct us := by
  induction ts with
  | nil => simp [weightOfProduct, leavesOfList]
  | cons t rest ih =>
    simp only [List.cons_append, weightOfProduct, leavesOfList, leavesOfList_append, ih]
    ring

theorem Same.leaves_eq {t u : TypeTree} (h : Same t u) : t.leaves = u.leaves := by
  induction h with
  | refl => rfl
  | symm _ ih => exact ih.symm
  | trans _ _ first second => exact first.trans second
  | _ => simp_all [leaves, leavesOfList, leavesOfFields]; try omega

theorem Same.weight_eq {t u : TypeTree} (h : Same t u) : t.weight = u.weight := by
  induction h with
  | refl => rfl
  | symm _ ih => exact ih.symm
  | trans _ _ first second => exact first.trans second
  | array same ih => simp [weight, ih, same.leaves_eq]
  | record _ ih => simp [weight, ih]
  | field _ before after name required ih => simp [weight, weightOfFields, ih]
  | member _ before after ih => simp [weight, weightOfList, ih]
  | part same before after ih =>
    simp [weight, weightOfProduct, leavesOfList, ih, same.leaves_eq]
  | nestedUnion before inner after => simp [weight, weightOfList]
  | nestedIntersection before inner after =>
    simp only [weight, weightOfProduct_append, weightOfProduct, leavesOfList, leaves,
      leavesOfList_append]
    ring
  | singleUnion t => simp [weight, weightOfList]
  | singleIntersection t => simp [weight, weightOfProduct, leavesOfList]

end TypeTree

open TypeTree (leavesOfList weightOfList weightOfProduct leavesOfList_append weightOfProduct_append)

namespace Terms

variable {r s : Terms} {rs : List Terms}

def alternatives (r : Terms) : List (List TypeTree) := r.done ++ [r.factors ++ [r.last]]

def first (r : Terms) : List TypeTree := r.done.headD (r.factors ++ [r.last])

def Filled (r : Terms) : Prop := ∀ a ∈ r.alternatives, a ≠ [] ∧ ∀ t ∈ a, 0 < t.leaves

theorem leavesOfList_pos {ts : List TypeTree} (some_tree : ts ≠ [])
    (filled : ∀ t ∈ ts, 0 < t.leaves) : 0 < leavesOfList ts := by
  obtain ⟨t, rest, rfl⟩ := List.exists_cons_of_ne_nil some_tree
  have := filled t List.mem_cons_self
  rw [leavesOfList]
  omega

theorem Filled.leaves_pos (filled : r.Filled) : ∀ a ∈ r.alternatives, 0 < leavesOfList a :=
  fun a listed => leavesOfList_pos (filled a listed).1 (filled a listed).2

theorem leavesOfList_map (alternatives : List (List TypeTree)) :
    leavesOfList (alternatives.map .intersection) = (alternatives.map leavesOfList).sum := by
  induction alternatives with
  | nil => rfl
  | cons a rest ih => simp [leavesOfList, TypeTree.leaves, ih]

theorem weightOfList_map (alternatives : List (List TypeTree)) :
    weightOfList (alternatives.map .intersection) = (alternatives.map weightOfProduct).sum := by
  induction alternatives with
  | nil => rfl
  | cons a rest ih => simp [weightOfList, TypeTree.weight, ih]

theorem close_eq (r : Terms) : r.close = .union (r.alternatives.map .intersection) := by
  simp [close, alternatives]

theorem close_leaves (r : Terms) : r.close.leaves = (r.alternatives.map leavesOfList).sum := by
  rw [close_eq, TypeTree.leaves, leavesOfList_map]

theorem close_weight (r : Terms) : r.close.weight = (r.alternatives.map weightOfProduct).sum := by
  rw [close_eq, TypeTree.weight, weightOfList_map]

theorem either_alternatives : (r.either s).alternatives = r.alternatives ++ s.alternatives := by
  obtain ⟨sd, sf, sl⟩ := s
  cases sd <;> simp [either, behind, alternatives]

theorem both_alternatives : (r.both s).alternatives =
    r.done ++ (r.factors ++ [r.last] ++ s.first) :: s.alternatives.tail := by
  obtain ⟨sd, sf, sl⟩ := s
  cases sd <;> simp [both, behind, alternatives, first]

theorem alternatives_eq (r : Terms) : r.alternatives = r.first :: r.alternatives.tail := by
  obtain ⟨rd, rf, rl⟩ := r
  cases rd <;> simp [alternatives, first]

theorem either_leaves : (r.either s).close.leaves = r.close.leaves + s.close.leaves := by
  simp [close_leaves, either_alternatives]

theorem either_weight : (r.either s).close.weight = r.close.weight + s.close.weight := by
  simp [close_weight, either_alternatives]

theorem both_leaves : (r.both s).close.leaves = r.close.leaves + s.close.leaves := by
  rw [close_leaves, close_leaves, close_leaves, both_alternatives, s.alternatives_eq]
  simp only [alternatives, List.map_append, List.map_cons, List.sum_append, List.sum_cons,
    leavesOfList_append, List.map_nil, List.sum_nil, List.tail_cons]
  omega

theorem both_weight : (r.both s).close.weight = r.close.weight + s.close.weight +
    leavesOfList (r.factors ++ [r.last]) * leavesOfList s.first := by
  rw [close_weight, close_weight, close_weight, both_alternatives, s.alternatives_eq]
  simp only [alternatives, List.map_append, List.map_cons, List.sum_append, List.sum_cons,
    weightOfProduct_append, List.map_nil, List.sum_nil, List.tail_cons]
  ring

theorem Filled.single {t : TypeTree} (leaf : 0 < t.leaves) : (single t).Filled := by
  intro a listed
  rw [show a = [t] by simpa [Terms.single, alternatives] using listed]
  exact ⟨List.cons_ne_nil _ _, fun u mem => List.mem_singleton.mp mem ▸ leaf⟩

theorem Filled.either (left : r.Filled) (right : s.Filled) : (r.either s).Filled := by
  intro a listed
  rw [either_alternatives] at listed
  exact (List.mem_append.mp listed).elim (left a) (right a)

theorem Filled.both (left : r.Filled) (right : s.Filled) : (r.both s).Filled := by
  intro a listed
  rw [both_alternatives] at listed
  rcases List.mem_append.mp listed with before | listed
  · exact left a (List.mem_append_left _ before)
  · rcases List.mem_cons.mp listed with rfl | behind
    · have front := left _ (List.mem_append_right _ List.mem_cons_self)
      have back := right s.first (s.alternatives_eq ▸ List.mem_cons_self)
      refine ⟨List.append_ne_nil_of_left_ne_nil front.1 _, fun t mem => ?_⟩
      exact (List.mem_append.mp mem).elim (front.2 t) (back.2 t)
    · exact right a (List.mem_of_mem_tail behind)

theorem Filled.close_leaves_pos (filled : r.Filled) : 0 < r.close.leaves := by
  have first := filled.leaves_pos _ (r.alternatives_eq ▸ List.mem_cons_self)
  rw [close_leaves, alternatives_eq, List.map_cons, List.sum_cons]
  omega

theorem leaves_split_last (r : Terms) : r.close.leaves =
    (r.done.map leavesOfList).sum + leavesOfList (r.factors ++ [r.last]) := by
  rw [close_leaves, alternatives]
  simp

theorem leaves_split_first (s : Terms) : s.close.leaves =
    leavesOfList s.first + (s.alternatives.tail.map leavesOfList).sum := by
  rw [close_leaves, alternatives_eq, List.map_cons, List.sum_cons, List.tail_cons]

/-- An intersection brings together at most all leaves of its parts. -/
theorem both_weight_le : (r.both s).close.weight ≤
    r.close.weight + s.close.weight + r.close.leaves * s.close.leaves := by
  rw [both_weight, leaves_split_last r, leaves_split_first s]
  exact Nat.add_le_add_left (Nat.mul_le_mul (Nat.le_add_left _ _) (Nat.le_add_right _ _)) _

theorem eq_nil_of_leaves {as : List (List TypeTree)} (filled : ∀ a ∈ as, 0 < leavesOfList a)
    (none : (as.map leavesOfList).sum = 0) : as = [] := by
  cases as with
  | nil => rfl
  | cons a rest =>
    have := filled a List.mem_cons_self
    rw [List.map_cons, List.sum_cons] at none
    omega

theorem eq_zero_of_mul_eq {a b d e : Nat} (front : 0 < a) (back : 0 < b)
    (same : a * b = (d + a) * (b + e)) : d = 0 ∧ e = 0 := by
  have expanded : (d + a) * (b + e) = a * b + (d * b + d * e + a * e) := by ring
  have first : d * b = 0 := by omega
  have second : a * e = 0 := by omega
  constructor
  · exact (Nat.mul_eq_zero.mp first).resolve_right back.ne'
  · exact (Nat.mul_eq_zero.mp second).resolve_left front.ne'

theorem both_weight_eq (left : r.Filled) (right : s.Filled) (whole : (r.both s).close.weight =
      r.close.weight + s.close.weight + r.close.leaves * s.close.leaves) :
    r.done = [] ∧ s.done = [] := by
  have last : 0 < leavesOfList (r.factors ++ [r.last]) :=
    left.leaves_pos _ (List.mem_append_right _ List.mem_cons_self)
  have first : 0 < leavesOfList s.first :=
    right.leaves_pos _ (s.alternatives_eq ▸ List.mem_cons_self)
  rw [both_weight, leaves_split_last r, leaves_split_first s] at whole
  have ⟨none_before, none_behind⟩ :=
    eq_zero_of_mul_eq last first (Nat.add_left_cancel whole)
  have before : r.done = [] := eq_nil_of_leaves
    (fun a listed => left.leaves_pos a (List.mem_append_left _ listed)) none_before
  have behind : s.alternatives.tail = [] := eq_nil_of_leaves
    (fun a listed => right.leaves_pos a (List.mem_of_mem_tail listed)) none_behind
  refine ⟨before, ?_⟩
  have lengths := congrArg List.length behind
  simpa [alternatives] using lengths

theorem single_leaves (t : TypeTree) : (single t).close.leaves = t.leaves := by
  simp [close_leaves, single, alternatives, leavesOfList]

theorem single_weight (t : TypeTree) : (single t).close.weight = t.weight := by
  simp [close_weight, single, alternatives, weightOfProduct, leavesOfList]

theorem grouped_leaves (compound : Bool) : (r.grouped compound).close.leaves = r.close.leaves := by
  cases compound with
  | false => rfl
  | true => exact single_leaves _

theorem grouped_weight (compound : Bool) : (r.grouped compound).close.weight = r.close.weight := by
  cases compound with
  | false => rfl
  | true => exact single_weight _

theorem inArray_leaves : r.inArray.close.leaves = r.close.leaves := by
  simp [leaves_split_last, inArray, leavesOfList, TypeTree.leaves]

theorem inArray_weight : r.inArray.close.weight = r.close.weight + r.last.leaves := by
  simp only [close_weight, alternatives, inArray, List.map_append, List.map_cons, List.map_nil,
    List.sum_append, List.sum_cons, List.sum_nil, weightOfProduct_append, weightOfProduct,
    TypeTree.weight, leavesOfList, TypeTree.leaves]
  ring

theorem inArray_weight_eq (filled : r.Filled)
    (whole : r.inArray.close.weight = r.close.weight + r.close.leaves) :
    r.done = [] ∧ r.factors = [] := by
  rw [inArray_weight, leaves_split_last, leavesOfList_append, leavesOfList, leavesOfList] at whole
  have none_before : (r.done.map leavesOfList).sum = 0 := by omega
  have no_factor : leavesOfList r.factors = 0 := by omega
  refine ⟨eq_nil_of_leaves
    (fun a listed => filled.leaves_pos a (List.mem_append_left _ listed)) none_before, ?_⟩
  by_contra some_factor
  have last := filled (r.factors ++ [r.last]) (List.mem_append_right _ List.mem_cons_self)
  have := leavesOfList_pos some_factor fun t mem => last.2 t (List.mem_append_left _ mem)
  omega

theorem Filled.inArray (filled : r.Filled) : r.inArray.Filled := by
  intro a listed
  rcases List.mem_append.mp listed with before | last
  · exact filled a (List.mem_append_left _ before)
  · have whole := filled (r.factors ++ [r.last]) (List.mem_append_right _ List.mem_cons_self)
    rw [List.mem_singleton.mp last]
    refine ⟨by simp, fun t mem => ?_⟩
    rcases List.mem_append.mp mem with mem | mem
    · exact whole.2 t (List.mem_append_left _ mem)
    · rw [List.mem_singleton.mp mem]
      exact whole.2 r.last (List.mem_append_right _ List.mem_cons_self)

theorem Filled.grouped (filled : r.Filled) (compound : Bool) : (r.grouped compound).Filled := by
  cases compound with
  | false => exact filled
  | true => exact .single filled.close_leaves_pos

/-- What is read has all leaves of the type and at most its weight, and if it has that, then the
type keeps its parts. -/
structure Weighs (t : TypeTree) (r : Terms) (Kept : Prop) : Prop where
  leaves : r.close.leaves = t.leaves
  filled : r.Filled
  bounded : r.close.weight ≤ t.weight
  kept : r.close.weight = t.weight → Kept

namespace Weighs

variable {t : TypeTree} {ts : List TypeTree} {K L : Prop}

theorem imp (h : Weighs t r K) (weaker : K → L) : Weighs t r L :=
  ⟨h.leaves, h.filled, h.bounded, fun same => weaker (h.kept same)⟩

theorem single (leaf : 0 < t.leaves) : Weighs t (single t) True :=
  ⟨single_leaves t, .single leaf, (single_weight t).le, fun _ => trivial⟩

theorem name (text : String) : Weighs (.name text) (.single (.name text)) True :=
  .single (by simp [TypeTree.leaves])

theorem literal (value : String) : Weighs (.literal value) (.single (.literal value)) True :=
  .single (by simp [TypeTree.leaves])

theorem noFields : Weighs (.object []) (.single (.object [])) True :=
  .single (by simp [TypeTree.leaves])

theorem grouped (h : Weighs t r K) (compound : Bool) : Weighs t (r.grouped compound) K where
  leaves := (grouped_leaves compound).trans h.leaves
  filled := h.filled.grouped compound
  bounded := (grouped_weight compound).trans_le h.bounded
  kept same := h.kept ((grouped_weight compound).symm.trans same)

theorem inArray (h : Weighs t r K) :
    Weighs (.array t) r.inArray (K ∧ r.done = [] ∧ r.factors = []) where
  leaves := inArray_leaves.trans h.leaves
  filled := h.filled.inArray
  bounded := by
    have := leaves_split_last r
    have := h.leaves
    have := h.bounded
    rw [inArray_weight, TypeTree.weight]
    simp only [leavesOfList_append, leavesOfList] at *
    omega
  kept same := by
    have most : r.last.leaves ≤ r.close.leaves := by
      rw [leaves_split_last, leavesOfList_append, leavesOfList]
      omega
    have bounded := h.bounded
    have leaves := h.leaves
    rw [TypeTree.weight] at same
    have weight := inArray_weight (r := r)
    refine ⟨h.kept (by omega), inArray_weight_eq h.filled (by omega)⟩

theorem inRecord (h : Weighs t r K) : Weighs (.record t) (.single (.record r.close)) K where
  leaves := (single_leaves _).trans h.leaves
  filled := .single h.filled.close_leaves_pos
  bounded := (single_weight _).trans_le h.bounded
  kept same := h.kept ((single_weight _).symm.trans same)

theorem field {fields fields' : List (String × TypeTree × Bool)} (h : Weighs t r K)
    (rest : Weighs (.object fields) (.single (.object fields')) L) (name : String)
    (required : Bool) : Weighs (.object ((name, t, required) :: fields))
      (.single (.object ((name, r.close, required) :: fields'))) (K ∧ L) := by
  obtain ⟨leaves, _, bounded, kept⟩ := rest
  have bounded' := h.bounded
  simp only [single_leaves, single_weight, TypeTree.leaves, TypeTree.weight] at leaves bounded kept
  refine ⟨?_, .single (by simp [TypeTree.leaves]), ?_, fun same => ?_⟩
  · rw [single_leaves]
    simp only [TypeTree.leaves, TypeTree.leavesOfFields, h.leaves]
    omega
  · rw [single_weight]
    exact Nat.add_le_add h.bounded bounded
  · rw [single_weight] at same
    simp only [TypeTree.weight, TypeTree.weightOfFields] at same
    exact ⟨h.kept (by omega), kept (by omega)⟩

theorem member (h : Weighs t r K) : Weighs (.union [t]) r K := by
  obtain ⟨leaves, filled, bounded, kept⟩ := h
  constructor <;> simpa [TypeTree.leaves, TypeTree.weight, leavesOfList, weightOfList]

theorem either (h : Weighs t r K) (rest : Weighs (.union ts) s L) :
    Weighs (.union (t :: ts)) (r.either s) (K ∧ L) where
  leaves := by
    rw [either_leaves, h.leaves, rest.leaves]
    rfl
  filled := h.filled.either rest.filled
  bounded := by
    rw [either_weight]
    exact Nat.add_le_add h.bounded rest.bounded
  kept same := by
    have first := h.bounded
    have later := rest.bounded
    have sum : (TypeTree.union (t :: ts)).weight = t.weight + (TypeTree.union ts).weight := rfl
    rw [either_weight] at same
    exact ⟨h.kept (by omega), rest.kept (by omega)⟩

theorem part (h : Weighs t r K) : Weighs (.intersection [t]) r K := by
  obtain ⟨leaves, filled, bounded, kept⟩ := h
  constructor <;> simpa [TypeTree.leaves, TypeTree.weight, leavesOfList, weightOfProduct]

theorem both (h : Weighs t r K) (rest : Weighs (.intersection ts) s L) :
    Weighs (.intersection (t :: ts)) (r.both s) (K ∧ L ∧ r.done = [] ∧ s.done = []) := by
  have most := both_weight_le (r := r) (s := s)
  have first := h.bounded
  have later := rest.bounded
  have sum : (TypeTree.intersection (t :: ts)).weight =
      t.weight + (TypeTree.intersection ts).weight + r.close.leaves * s.close.leaves := by
    rw [h.leaves, rest.leaves, TypeTree.weight, weightOfProduct, TypeTree.weight, TypeTree.leaves]
    omega
  refine ⟨?_, h.filled.both rest.filled, by omega, fun same => ?_⟩
  · rw [both_leaves, h.leaves, rest.leaves]
    rfl
  · have single := both_weight_eq h.filled rest.filled (by omega)
    exact ⟨h.kept (by omega), rest.kept (by omega), single⟩

end Weighs

end Terms

end TypedClients.TypeScript
