import TypedClients.Proofs.Dereference
import TypedClients.Proofs.Outcome

namespace TypedClients.Arena

open Relation (ReflTransGen TransGen)

variable {arena : Arena} {busy : List String} {n m t : String}

def Step (arena : Arena) (busy : List String) (n m : String) : Prop :=
  n ∉ busy ∧ arena.AliasOf n m

theorem Step.unique {k : String} (hm : arena.Step busy n m) (hk : arena.Step busy n k) : m = k :=
  hm.2.unique hk.2

theorem step_nil : arena.Step [] = arena.AliasOf := by
  funext n m
  simp [Step]

/-- The first stored name on the chain from a reference that is busy. -/
def FirstBusy (arena : Arena) (busy : List String) (r : SchemaRef) (m : String) : Prop :=
  ∃ path n, r = .ref path ∧ Pointer.schemaName? path = some n ∧
    ReflTransGen (arena.Step busy) n m ∧ m ∈ arena.names ∧ m ∈ busy

/-- The chain of aliases from the name reaches no schema: it leaves the arena, it comes to a
reference that names nothing, or it comes back to a name. -/
inductive Strays (arena : Arena) (n : String) : Prop where
  | leaves {m : String} (chain : ReflTransGen arena.AliasOf n m) (unknown : m ∉ arena.names)
  | malformed {m path : String} (chain : ReflTransGen arena.AliasOf n m)
      (stored : arena.find? m = some (.ref path)) (unnamed : Pointer.schemaName? path = none)
  | returns {m : String} (chain : ReflTransGen arena.AliasOf n m)
      (loop : TransGen arena.AliasOf m m)

inductive Comes (arena : Arena) (busy : List String) (n : String) :
    Except ResolveError Deref → Prop where
  | schema {t : String} {s : Schema} (chain : ReflTransGen (arena.Step busy) n t) (idle : t ∉ busy)
      (stored : arena.find? t = some (.item s)) : Comes arena busy n (.ok (.schema (some t) s))
  | cycle {m : String} (chain : ReflTransGen (arena.Step busy) n m) (known : m ∈ arena.names)
      (stops : m ∈ busy) : Comes arena busy n (.ok (.cycle m))
  | leaves {m path : String} (chain : ReflTransGen (arena.Step busy) n m)
      (named : Pointer.schemaName? path = some m) (unknown : m ∉ arena.names) :
      Comes arena busy n (.error (.targetNotFound path place))
  | malformed {m path : String} (chain : ReflTransGen (arena.Step busy) n m) (idle : m ∉ busy)
      (stored : arena.find? m = some (.ref path)) (unnamed : Pointer.schemaName? path = none) :
      Comes arena busy n (.error (.invalidFormat path place))
  | returns {m : String} (chain : ReflTransGen (arena.Step busy) n m)
      (loop : TransGen (arena.Step busy) m m) : Comes arena busy n (.error (.circularAlias m))

theorem Comes.behind {x : Except ResolveError Deref} (first : arena.Step busy n m)
    (h : arena.Comes busy m x) : arena.Comes busy n x := by
  cases h with
  | schema chain idle stored => exact .schema (.head first chain) idle stored
  | cycle chain known stops => exact .cycle (.head first chain) known stops
  | leaves chain named unknown => exact .leaves (.head first chain) named unknown
  | malformed chain idle stored unnamed => exact .malformed (.head first chain) idle stored unnamed
  | returns chain loop => exact .returns (.head first chain) loop

/-- A name that is stored but no longer unvisited was passed on the way to the present one, so the
chain returns when it comes to such a name. -/
theorem derefFrom_comes {unvisited : List (String × SchemaRef)} {name : Option String}
    {path : String} (named : Pointer.schemaName? path = some n)
    (part : ∀ k r, Keyed.find? k unvisited = some r → arena.find? k = some r)
    (passed : ∀ k ∈ arena.names, Keyed.find? k unvisited = none →
      TransGen (arena.Step busy) k n) :
    arena.Comes busy n (arena.derefFrom busy unvisited name (.ref path)) := by
  generalize whole : Referenced.ref path = r
  fun_induction derefFrom arena busy unvisited name r generalizing path n with
  | case1 => cases whole
  | case2 unvisited _ path unnamed =>
    cases whole
    rw [named] at unnamed
    cases unnamed
  | case3 unvisited _ path k again unknown =>
    cases whole
    cases named.symm.trans again
    have unknown : k ∉ arena.names := by
      rw [← contains_iff_mem_names]
      simpa using unknown
    exact .leaves .refl named unknown
  | case4 unvisited _ path k again known stops =>
    cases whole
    cases named.symm.trans again
    exact .cycle .refl (contains_iff_mem_names.mp (by simpa using known)) (by simpa using stops)
  | case5 unvisited _ path k again known _ visited =>
    cases whole
    cases named.symm.trans again
    have loop := passed k (contains_iff_mem_names.mp (by simpa using known)) visited
    exact .returns .refl loop
  | case6 unvisited _ path k again known idle target found ih =>
    cases whole
    cases named.symm.trans again
    have idle : k ∉ busy := by simpa using idle
    have stored := part k target found
    cases target with
    | item s =>
      rw [derefFrom]
      exact .schema .refl idle stored
    | ref next =>
      cases following : Pointer.schemaName? next with
      | none =>
        rw [derefFrom, following]
        exact .malformed .refl idle stored following
      | some m =>
        have first : arena.Step busy k m := ⟨idle, next, stored, following⟩
        refine (ih following (fun j r stays => part j r (Keyed.find?_of_find?_erase stays))
          (fun j listed gone => ?_) rfl).behind first
        by_cases same : j = k
        · subst same
          exact .single first
        · rw [Keyed.find?_erase_of_ne unvisited same] at gone
          exact (passed j listed gone).tail first

theorem deref_comes {path : String} (named : Pointer.schemaName? path = some n) :
    arena.Comes busy n (arena.deref busy (.ref path)) := by
  apply derefFrom_comes named (fun _ _ found => found)
  intro k listed missing
  exact absurd listed (Keyed.find?_eq_none.mp missing)

theorem chain_end_unique {k : String} (to_m : ReflTransGen (arena.Step busy) n m)
    (to_k : ReflTransGen (arena.Step busy) n k) (stops_m : ∀ a, ¬ arena.Step busy m a)
    (stops_k : ∀ a, ¬ arena.Step busy k a) : m = k := by
  have unique : Relator.RightUnique (arena.Step busy) := fun _ _ _ => Step.unique
  rcases ReflTransGen.total_of_right_unique unique to_m to_k with further | further
  · rcases further.cases_head with same | ⟨a, first, _⟩
    · exact same
    · exact absurd first (stops_m a)
  · rcases further.cases_head with same | ⟨a, first, _⟩
    · exact same.symm
    · exact absurd first (stops_k a)

theorem chain_end_not_returns {k : String} (to_m : ReflTransGen (arena.Step busy) n m)
    (stops : ∀ a, ¬ arena.Step busy m a) (to_k : ReflTransGen (arena.Step busy) n k) :
    ¬ TransGen (arena.Step busy) k k := by
  have unique : Relator.RightUnique (arena.Step busy) := fun _ _ _ => Step.unique
  rcases ReflTransGen.total_of_right_unique unique to_k to_m with further | further
  · exact not_transGen_of_stops Step.unique further stops
  · intro loop
    rcases further.cases_head with same | ⟨a, first, _⟩
    · subst same
      obtain ⟨a, first, _⟩ := TransGen.head'_iff.mp loop
      exact stops a first
    · exact stops a first

theorem not_step_of_busy (h : m ∈ busy) (k : String) : ¬ arena.Step busy m k :=
  fun step => step.1 h

theorem not_step_of_item {s : Schema} (h : arena.find? m = some (.item s)) (k : String) :
    ¬ arena.Step busy m k := fun step => step.2.not_item h

theorem not_step_of_unknown (h : m ∉ arena.names) (k : String) : ¬ arena.Step busy m k := by
  rintro ⟨_, _, found, _⟩
  exact h (Keyed.mem_keys_of_find? found)

theorem not_step_of_unnamed {path : String} (h : arena.find? m = some (.ref path))
    (unnamed : Pointer.schemaName? path = none) (k : String) : ¬ arena.Step busy m k := by
  rintro ⟨_, other, found, named⟩
  cases h.symm.trans found
  cases unnamed.symm.trans named

theorem deref_eq_cycle_iff {r : SchemaRef} :
    arena.deref busy r = .ok (.cycle m) ↔ arena.FirstBusy busy r m := by
  cases r with
  | item s =>
    rw [deref, derefFrom]
    constructor
    · intro h
      cases h
    · rintro ⟨_, _, none, _⟩
      cases none
  | ref path =>
    cases named : Pointer.schemaName? path with
    | none =>
      rw [deref, derefFrom, named]
      constructor
      · intro h
        cases h
      · rintro ⟨_, _, same, found, _⟩
        cases same
        cases named.symm.trans found
    | some n =>
      have comes : arena.Comes busy n _ := deref_comes named
      constructor
      · intro h
        rw [h] at comes
        cases comes with
        | cycle chain known stops => exact ⟨path, n, rfl, named, chain, known, stops⟩
      · rintro ⟨_, _, same, again, chain, known, stops⟩
        cases same
        cases named.symm.trans again
        have ends : ∀ a, ¬ arena.Step busy _ a := not_step_of_busy stops
        generalize arena.deref busy (.ref path) = result at comes
        cases comes with
        | schema other idle stored =>
          have same := chain_end_unique chain other ends (not_step_of_item stored)
          exact absurd (same ▸ stops) idle
        | cycle other _ also =>
          have same := chain_end_unique chain other ends (not_step_of_busy also)
          rw [same]
        | leaves other _ unknown =>
          have same := chain_end_unique chain other ends (not_step_of_unknown unknown)
          exact absurd (same ▸ known) unknown
        | malformed other idle stored unnamed =>
          have same := chain_end_unique chain other ends (not_step_of_unnamed stored unnamed)
          exact absurd (same ▸ stops) idle
        | returns other loop => exact absurd loop (chain_end_not_returns chain ends other)

theorem derefFrom_idle {unvisited : List (String × SchemaRef)} {name : Option String}
    {r : SchemaRef} (part : ∀ k r, Keyed.find? k unvisited = some r → arena.find? k = some r)
    (idle : ∀ m, ¬ arena.FirstBusy busy r m) :
    arena.derefFrom busy unvisited name r = arena.derefFrom [] unvisited name r := by
  fun_induction derefFrom arena busy unvisited name r with
  | case1 => rw [derefFrom]
  | case2 unvisited _ path unnamed => rw [derefFrom, unnamed]
  | case3 unvisited _ path k named unknown =>
    rw [derefFrom, named]
    simp [unknown]
  | case4 unvisited _ path k named known stops =>
    have listed : k ∈ arena.names := contains_iff_mem_names.mp (by simpa using known)
    exact absurd ⟨path, k, rfl, named, .refl, listed, by simpa using stops⟩ (idle k)
  | case5 unvisited _ path k named known _ visited =>
    rw [derefFrom_known named (by simpa using known), visited]
    rfl
  | case6 unvisited _ path k named known stops target found ih =>
    have later : ∀ m, ¬ arena.FirstBusy busy target m := by
      rintro m ⟨next, j, rfl, following, chain, listed, busy_m⟩
      have first : arena.Step busy k j :=
        ⟨by simpa using stops, next, part k _ found, following⟩
      exact idle m ⟨path, k, rfl, named, .head first chain, listed, busy_m⟩
    rw [derefFrom_known named (by simpa using known), found]
    exact ih (fun j r stays => part j r (Keyed.find?_of_find?_erase stays)) later

/-- The chain of a name ends at a schema, or it strays. -/
theorem standsFor_or_strays {path : String} (named : Pointer.schemaName? path = some n) :
    (∃ t, arena.StandsFor n t) ∨ arena.Strays n := by
  have comes : arena.Comes [] n _ := deref_comes named
  generalize arena.deref [] (.ref path) = result at comes
  cases comes with
  | schema chain _ stored => exact .inl ⟨_, step_nil ▸ chain, _, stored⟩
  | cycle _ _ none => cases none
  | leaves chain _ unknown => exact .inr (.leaves (step_nil ▸ chain) unknown)
  | malformed chain _ stored unnamed =>
    exact .inr (.malformed (step_nil ▸ chain) stored unnamed)
  | returns chain loop => exact .inr (.returns (step_nil ▸ chain) (step_nil ▸ loop))

theorem StandsFor.not_strays (h : arena.StandsFor n t) : ¬ arena.Strays n := by
  obtain ⟨chain, s, stored⟩ := h
  have ends : ∀ a, ¬ arena.Step [] _ a := not_step_of_item stored
  intro strays
  rw [← step_nil] at chain
  cases strays with
  | leaves other unknown =>
    rw [← step_nil] at other
    have same := chain_end_unique chain other ends (not_step_of_unknown unknown)
    exact unknown (same ▸ Keyed.mem_keys_of_find? stored)
  | malformed other again unnamed =>
    rw [← step_nil] at other
    have same := chain_end_unique chain other ends (not_step_of_unnamed again unnamed)
    subst same
    cases stored.symm.trans again
  | returns other loop =>
    rw [← step_nil] at other loop
    exact chain_end_not_returns chain ends other loop

def followRef (arena : Arena) (busy seen : List String) (name : Option String) (r : SchemaRef) :
    Option (Except ResolveError Deref) :=
  match r with
  | .item s => some (.ok (.schema name s))
  | .ref path =>
    match Pointer.schemaName? path with
    | none => some (.error (.invalidFormat path place))
    | some n =>
      match arena.find? n with
      | none => some (.error (.targetNotFound path place))
      | some target =>
        if busy.contains n then some (.ok (.cycle n))
        else if seen.contains n then some (.error (.circularAlias n))
        else (arena.followRef busy (r := target)) (n :: seen) (some n)
partial_fixpoint

def followName (arena : Arena) (seen : List String) (n : String) :
    Option (Except ResolveError (String × Schema)) :=
  match arena.find? n with
  | none => some (.error (.targetNotFound (place ++ "/" ++ n) place))
  | some target =>
    if seen.contains n then some (.error (.circularAlias n))
    else match target with
      | .item s => some (.ok (n, s))
      | .ref path =>
        match Pointer.schemaName? path with
        | none => some (.error (.invalidFormat path place))
        | some next => (arena.followName (n := next)) (n :: seen)
partial_fixpoint

theorem find?_unexpanded (seen : List String) (n : String) :
    Keyed.find? n (arena.unexpanded seen) = if seen.contains n then none else arena.find? n := by
  have kept := Keyed.find?_filter (fun k => !seen.contains k) n arena.schemas
  exact kept.trans (by cases seen.contains n <;> rfl)

theorem erase_unexpanded (seen : List String) (n : String) :
    Keyed.erase n (arena.unexpanded seen) = arena.unexpanded (n :: seen) := by
  unfold Keyed.erase unexpanded
  rw [List.filter_filter]
  apply List.filter_congr
  rintro ⟨m, _⟩ _
  by_cases hm : m = n <;> simp [hm]

theorem seen_of_visited {seen : List String} {r : SchemaRef} (stored : arena.find? n = some r)
    (visited : Keyed.find? n (arena.unexpanded seen) = none) : seen.contains n = true := by
  rw [find?_unexpanded, stored] at visited
  simpa using visited

theorem fresh_of_found {seen : List String} {r : SchemaRef}
    (found : Keyed.find? n (arena.unexpanded seen) = some r) :
    seen.contains n = false ∧ arena.find? n = some r := by
  rw [find?_unexpanded] at found
  cases known : seen.contains n with
  | true =>
    rw [known] at found
    cases found
  | false =>
    rw [known] at found
    exact ⟨rfl, found⟩

theorem find?_of_unknown (h : (!arena.contains n) = true) : arena.find? n = none := by
  rw [find?, Keyed.find?_eq_none]
  intro listed
  rw [contains_iff_mem_names.mpr listed] at h
  cases h

theorem find?_of_known (h : ¬(!arena.contains n) = true) : ∃ r, arena.find? n = some r :=
  Keyed.find?_of_mem_keys (contains_iff_mem_names.mp (by simpa using h))

theorem followRef_eq (busy seen : List String) (name : Option String) (r : SchemaRef) :
    arena.followRef busy seen name r =
      some (arena.derefFrom busy (arena.unexpanded seen) name r) := by
  generalize whole : arena.unexpanded seen = unvisited
  fun_induction derefFrom arena busy unvisited name r generalizing seen with
  | case1 => rw [followRef]
  | case2 unvisited _ path unnamed => rw [followRef, unnamed]
  | case3 unvisited _ path k named unknown =>
    rw [followRef, named]
    simp only [find?_of_unknown unknown]
  | case4 unvisited _ path k named known stops =>
    obtain ⟨target, stored⟩ := find?_of_known known
    rw [followRef, named]
    simp only [stored, stops, if_true]
  | case5 unvisited _ path k named known idle visited =>
    obtain ⟨target, stored⟩ := find?_of_known known
    have again := seen_of_visited stored (whole ▸ visited)
    rw [followRef, named]
    simp only [stored, idle, again, if_true]
    rfl
  | case6 unvisited _ path k named known idle target found ih =>
    obtain ⟨fresh, stored⟩ := fresh_of_found (whole ▸ found)
    rw [followRef, named]
    simp only [stored, idle, fresh]
    exact ih (k :: seen) (whole ▸ (erase_unexpanded seen k).symm)

theorem followName_eq (seen : List String) (n : String) :
    arena.followName seen n = some (arena.concreteFrom (arena.unexpanded seen) n) := by
  generalize whole : arena.unexpanded seen = unvisited
  fun_induction concreteFrom arena unvisited n generalizing seen with
  | case1 unvisited n unknown =>
    rw [followName]
    simp only [find?_of_unknown unknown]
  | case2 unvisited n known visited =>
    obtain ⟨target, stored⟩ := find?_of_known known
    rw [followName]
    simp only [stored, seen_of_visited stored (whole ▸ visited), if_true]
  | case3 unvisited n known s found =>
    obtain ⟨fresh, stored⟩ := fresh_of_found (whole ▸ found)
    rw [followName]
    simp only [stored, fresh]
    rfl
  | case4 unvisited n known path found unnamed =>
    obtain ⟨fresh, stored⟩ := fresh_of_found (whole ▸ found)
    rw [followName]
    simp only [stored, fresh, unnamed]
    rfl
  | case5 unvisited n known path found next named ih =>
    obtain ⟨fresh, stored⟩ := fresh_of_found (whole ▸ found)
    rw [followName]
    simp only [stored, fresh, named]
    exact ih (n :: seen) (whole ▸ (erase_unexpanded seen n).symm)

theorem unexpanded_nil (arena : Arena) : arena.unexpanded [] = arena.schemas :=
  List.filter_eq_self.mpr fun _ _ => rfl

theorem deref_nil_eq_ok {path : String} (named : Pointer.schemaName? path = some n) {d : Deref} :
    arena.deref [] (.ref path) = .ok d ↔
      ∃ t s, arena.concrete n = .ok (t, s) ∧ d = .schema (some t) s := by
  constructor
  · intro h
    have comes : arena.Comes [] n _ := deref_comes named
    rw [h] at comes
    cases comes with
    | @schema t s chain _ stored =>
      exact ⟨t, s, concrete_eq_ok.mpr ⟨⟨step_nil ▸ chain, s, stored⟩, stored⟩, rfl⟩
    | cycle _ _ none => cases none
  · rintro ⟨t, s, h, rfl⟩
    obtain ⟨stands, stored⟩ := concrete_eq_ok.mp h
    exact deref_eq (fun _ none => absurd none List.not_mem_nil) named stands stored

theorem concrete_fails_iff {path : String} (named : Pointer.schemaName? path = some n) :
    (∃ e, arena.concrete n = .error e) ↔ arena.Strays n := by
  rw [Outcome.fails_iff]
  constructor
  · intro fails
    refine (standsFor_or_strays named).resolve_left ?_
    rintro ⟨t, stands⟩
    obtain ⟨s, stored⟩ := stands.2
    exact fails ⟨(t, s), concrete_eq_ok.mpr ⟨stands, stored⟩⟩
  · rintro strays ⟨⟨t, s⟩, h⟩
    exact (concrete_eq_ok.mp h).1.not_strays strays

/-- Both ways of following a chain end. Where nothing is busy they find the same schema under the
same name, the one that the name stands for, and fail where the chain strays. A busy name is
answered just where it is the first one on the chain; all other busy names make no difference. -/
theorem deref_concrete (arena : Arena) :
    (∀ busy r, arena.followRef busy [] none r = some (arena.deref busy r)) ∧
    (∀ n, arena.followName [] n = some (arena.concrete n)) ∧
    (∀ path n, Pointer.schemaName? path = some n →
      (∀ d, arena.deref [] (.ref path) = .ok d ↔
        ∃ t s, arena.concrete n = .ok (t, s) ∧ d = .schema (some t) s) ∧
      (∀ t s, arena.concrete n = .ok (t, s) ↔
        arena.StandsFor n t ∧ arena.find? t = some (.item s)) ∧
      ((∃ e, arena.deref [] (.ref path) = .error e) ↔ arena.Strays n) ∧
      ((∃ e, arena.concrete n = .error e) ↔ arena.Strays n)) ∧
    (∀ busy r m, arena.deref busy r = .ok (.cycle m) ↔ arena.FirstBusy busy r m) ∧
    ∀ busy r, (∀ m, ¬ arena.FirstBusy busy r m) → arena.deref busy r = arena.deref [] r := by
  refine ⟨fun busy r => ?_, fun n => ?_, fun path n named => ?_, fun busy r m => deref_eq_cycle_iff,
    fun busy r idle => derefFrom_idle (fun _ _ found => found) idle⟩
  · rw [followRef_eq, unexpanded_nil, deref]
  · rw [followName_eq, unexpanded_nil, concrete]
  · refine ⟨fun d => deref_nil_eq_ok named, fun t s => concrete_eq_ok, ?_,
      concrete_fails_iff named⟩
    rw [← concrete_fails_iff named, Outcome.fails_iff, Outcome.fails_iff]
    apply not_congr
    simp only [Outcome.Succeeds, deref_nil_eq_ok named, Prod.exists]
    constructor
    · rintro ⟨_, t, s, h, _⟩
      exact ⟨t, s, h⟩
    · rintro ⟨t, s, h⟩
      exact ⟨_, t, s, h, rfl⟩

/-- One name is an alias of a schema, two are aliases of each other. -/
def twisted : Arena where
  schemas := [
    ("Pet", .ref (Pointer.ofSchema "Animal")),
    ("Animal", .item {}),
    ("Left", .ref (Pointer.ofSchema "Right")),
    ("Right", .ref (Pointer.ofSchema "Left"))]

theorem deref_concrete_twisted :
    Pointer.schemaName? (Pointer.ofSchema "Left") = some "Left" ∧
    (∃ e, twisted.deref [] (.ref (Pointer.ofSchema "Left")) = .error e) ∧
    (∃ e, twisted.concrete "Left" = .error e) ∧
    twisted.deref [] (.ref (Pointer.ofSchema "Pet")) = .ok (.schema (some "Animal") {}) ∧
    twisted.deref ["Right"] (.ref (Pointer.ofSchema "Left")) = .ok (.cycle "Right") ∧
    twisted.deref ["Right"] (.ref (Pointer.ofSchema "Pet")) =
      twisted.deref [] (.ref (Pointer.ofSchema "Pet")) := by
  have named : ∀ n ∈ ["Pet", "Animal", "Left", "Right"],
      Pointer.schemaName? (Pointer.ofSchema n) = some n := by decide
  have left : twisted.AliasOf "Left" "Right" := ⟨_, rfl, named _ (by decide)⟩
  have right : twisted.AliasOf "Right" "Left" := ⟨_, rfl, named _ (by decide)⟩
  have pet : twisted.AliasOf "Pet" "Animal" := ⟨_, rfl, named _ (by decide)⟩
  have strays : twisted.Strays "Left" := .returns .refl (.head left (.single right))
  obtain ⟨_, _, agree, stops, idle⟩ := deref_concrete twisted
  obtain ⟨_, _, deref_fails, concrete_fails⟩ := agree _ "Left" (named _ (by decide))
  obtain ⟨found, stands, _, _⟩ := agree _ "Pet" (named _ (by decide))
  refine ⟨named _ (by decide), deref_fails.mpr strays, concrete_fails.mpr strays, ?_, ?_, ?_⟩
  · exact (found _).mpr ⟨"Animal", {}, (stands _ _).mpr ⟨.alias pet (.item rfl), rfl⟩, rfl⟩
  · exact (stops ["Right"] _ "Right").mpr ⟨_, "Left", rfl, named _ (by decide),
      .single ⟨by decide, left⟩, by decide, by decide⟩
  · apply idle
    rintro m ⟨_, n, same, again, chain, _, busy⟩
    cases same
    cases (named _ (by decide)).symm.trans again
    have first : twisted.Step ["Right"] "Pet" "Animal" := ⟨by decide, pet⟩
    have ends : twisted.find? "Animal" = some (.item {}) := rfl
    have same := chain_end_unique (.single first) chain (not_step_of_item ends)
      (not_step_of_busy busy)
    subst same
    exact absurd busy (by decide)

end TypedClients.Arena
