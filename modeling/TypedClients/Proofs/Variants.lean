import TypedClients.Proofs.Operations
import TypedClients.Proofs.Resolution
import TypedClients.TypeScript.Text

namespace TypedClients

open Outcome

/-- The family `2xx`, or a number from 200 to 299; a plus sign and zeros may stand before it. -/
def IsSuccess (status : String) : Prop :=
  Text.asciiLower status = "2xx" ∨ ∃ (sign : List Char) (zeros : Nat) (tens ones : Char),
    (sign = [] ∨ sign = ['+']) ∧ tens.isDigit = true ∧ ones.isDigit = true ∧
      status.toList = sign ++ (List.replicate zeros '0' ++ ['2', tens, ones])

def digitsValue (digits : List Char) : Nat :=
  digits.foldl (fun acc c => acc * 10 + (c.toNat - 48)) 0

theorem digitsValue_cons (c : Char) (rest : List Char) :
    digitsValue (c :: rest) = (c.toNat - 48) * 10 ^ rest.length + digitsValue rest := by
  have shifted : ∀ (cs : List Char) (start : Nat),
      cs.foldl (fun acc c => acc * 10 + (c.toNat - 48)) start =
        start * 10 ^ cs.length + digitsValue cs := by
    intro cs
    induction cs with
    | nil => intro start; simp [digitsValue]
    | cons d more ih =>
      intro start
      rw [digitsValue, List.foldl_cons, List.foldl_cons, ih, ih (0 * 10 + _), List.length_cons,
        Nat.zero_mul, Nat.zero_add, Nat.add_mul, Nat.mul_assoc, ← Nat.pow_succ', Nat.add_assoc]
  rw [digitsValue, List.foldl_cons, shifted, Nat.zero_mul, Nat.zero_add]

theorem digitsValue_lt {digits : List Char} (h : ∀ c ∈ digits, c.isDigit = true) :
    digitsValue digits < 10 ^ digits.length := by
  induction digits with
  | nil => decide
  | cons c rest ih =>
    have later := ih fun d mem => h d (List.mem_cons_of_mem _ mem)
    obtain ⟨_, high⟩ := Text.digit_bounds (h c List.mem_cons_self)
    have digit : (c.toNat - 48) * 10 ^ rest.length ≤ 9 * 10 ^ rest.length :=
      Nat.mul_le_mul_right _ (by omega)
    rw [digitsValue_cons, List.length_cons, Nat.pow_succ]
    omega

theorem digitsValue_zeros (zeros : Nat) (rest : List Char) :
    digitsValue (List.replicate zeros '0' ++ rest) = digitsValue rest := by
  induction zeros with
  | zero => rfl
  | succ n ih =>
    rw [List.replicate_succ, List.cons_append, digitsValue_cons, ih]
    simp

theorem digitsValue_family {digits : List Char} (h : ∀ c ∈ digits, c.isDigit = true) :
    (200 ≤ digitsValue digits ∧ digitsValue digits < 300) ↔
      ∃ (zeros : Nat) (tens ones : Char), tens.isDigit = true ∧ ones.isDigit = true ∧
        digits = List.replicate zeros '0' ++ ['2', tens, ones] := by
  constructor
  · intro family
    induction digits with
    | nil => simp [digitsValue] at family
    | cons c rest ih =>
      have digits_rest : ∀ d ∈ rest, d.isDigit = true := fun d mem =>
        h d (List.mem_cons_of_mem _ mem)
      have below := digitsValue_lt digits_rest
      obtain ⟨low, high⟩ := Text.digit_bounds (h c List.mem_cons_self)
      rw [digitsValue_cons] at family
      rcases Nat.eq_or_lt_of_le low with zero | positive
      · have digit : c = '0' := Char.toNat_inj.mp zero.symm
        subst digit
        obtain ⟨zeros, tens, ones, tens_digit, ones_digit, same⟩ :=
          ih digits_rest (by simpa using family)
        exact ⟨zeros + 1, tens, ones, tens_digit, ones_digit, by rw [same]; rfl⟩
      · have scaled : 10 ^ rest.length ≤ (c.toNat - 48) * 10 ^ rest.length :=
          Nat.le_mul_of_pos_left _ (by omega)
        have short : rest.length < 3 := by
          by_contra long
          have grows : 10 ^ 3 ≤ 10 ^ rest.length := Nat.pow_le_pow_right (by decide) (by omega)
          omega
        match rest, short with
        | [], _ => simp [digitsValue] at family; omega
        | [d], _ => simp at family below; omega
        | [tens, ones], _ =>
          have two : c.toNat = '2'.toNat := by
            simp at family below
            show c.toNat = 50
            omega
          have digit : c = '2' := Char.toNat_inj.mp two
          subst digit
          exact ⟨0, tens, ones, digits_rest tens (by simp), digits_rest ones (by simp), rfl⟩
  · rintro ⟨zeros, tens, ones, tens_digit, ones_digit, rfl⟩
    have below : digitsValue [tens, ones] < 10 ^ 2 :=
      digitsValue_lt (by simp [tens_digit, ones_digit])
    rw [digitsValue_zeros, digitsValue_cons]
    simp
    omega

def Spells (digits : List Char) (n : Nat) : Prop :=
  digits ≠ [] ∧ (∀ c ∈ digits, c.isDigit = true) ∧ digitsValue digits = n ∧ n < 2 ^ 16

theorem statusCode?_eq_some {status : String} {n : Nat} : statusCode? status = some n ↔
    ∃ sign digits, (sign = [] ∨ sign = ['+']) ∧ status.toList = sign ++ digits ∧
      Spells digits n := by
  have read : ∀ digits : List Char,
      (if digits.isEmpty || !digits.all Char.isDigit then none
        else if digitsValue digits < Nat.pow 2 16 then some (digitsValue digits) else none) =
          some n ↔ Spells digits n := by
    intro digits
    unfold Spells
    split
    · rename_i refused
      have wrong : ¬(digits ≠ [] ∧ ∀ c ∈ digits, c.isDigit = true) := by
        simpa [imp_iff_not_or] using refused
      exact ⟨nofun, fun ⟨given, all, _⟩ => absurd ⟨given, all⟩ wrong⟩
    · rename_i accepted
      have right : digits ≠ [] ∧ ∀ c ∈ digits, c.isDigit = true := by
        simpa using accepted
      split
      · rename_i small
        refine ⟨fun same => ?_, fun ⟨_, _, same, _⟩ => congrArg some same⟩
        cases same
        exact ⟨right.1, right.2, rfl, small⟩
      · rename_i large
        refine ⟨nofun, fun ⟨_, _, same, small⟩ => ?_⟩
        exact absurd (same ▸ small) large
  unfold statusCode?
  split
  · rename_i rest signed
    refine (read rest).trans ⟨fun spelled => ⟨['+'], rest, .inr rfl, signed, spelled⟩, ?_⟩
    rintro ⟨sign, digits, rfl | rfl, same, spelled⟩
    · have plus := spelled.2.1 '+' (by rw [← List.nil_append digits, ← same, signed]; simp)
      exact absurd plus (by decide)
    · cases signed.symm.trans same
      exact spelled
  · rename_i unsigned
    refine (read _).trans ⟨fun spelled => ⟨[], _, .inl rfl, rfl, spelled⟩, ?_⟩
    rintro ⟨sign, digits, rfl | rfl, same, spelled⟩
    · rw [same]
      exact spelled
    · exact absurd same (unsigned _)

theorem isSuccessStatus_iff {status : String} :
    isSuccessStatus status = true ↔ IsSuccess status := by
  unfold isSuccessStatus IsSuccess Text.equalIgnoringCase
  have family : Text.asciiLower "2xx" = "2xx" := by decide
  rw [Bool.or_eq_true, beq_iff_eq, family, Option.any_eq_true]
  refine or_congr_right ⟨?_, ?_⟩
  · rintro ⟨n, code, range⟩
    obtain ⟨sign, digits, signed, whole, _, all, rfl, _⟩ := statusCode?_eq_some.mp code
    simp only [Bool.and_eq_true, decide_eq_true_eq] at range
    obtain ⟨zeros, tens, ones, tens_digit, ones_digit, rfl⟩ := (digitsValue_family all).mp range
    exact ⟨sign, zeros, tens, ones, signed, tens_digit, ones_digit, whole⟩
  · rintro ⟨sign, zeros, tens, ones, signed, tens_digit, ones_digit, whole⟩
    have all : ∀ c ∈ List.replicate zeros '0' ++ ['2', tens, ones], c.isDigit = true := by
      intro c mem
      rcases List.mem_append.mp mem with zero | last
      · rw [List.eq_of_mem_replicate zero]
        decide
      · rcases (by simpa using last : c = '2' ∨ c = tens ∨ c = ones) with rfl | rfl | rfl
        · decide
        · exact tens_digit
        · exact ones_digit
    have range := (digitsValue_family all).mpr ⟨zeros, tens, ones, tens_digit, ones_digit, rfl⟩
    refine ⟨_, statusCode?_eq_some.mpr ⟨sign, _, signed, whole, by simp, all, rfl, ?_⟩, ?_⟩
    · exact Nat.lt_trans range.2 (by decide)
    · simpa using range

instance : DecidablePred IsSuccess := fun _ => decidable_of_iff _ isSuccessStatus_iff

def Succeeds (statuses : List String) (status : String) : Prop :=
  IsSuccess status ∨ (status = "default" ∧ ∀ s ∈ statuses, ¬IsSuccess s)

instance (statuses : List String) : DecidablePred (Succeeds statuses) := fun status =>
  inferInstanceAs (Decidable
    (IsSuccess status ∨ (status = "default" ∧ ∀ s ∈ statuses, ¬IsSuccess s)))

structure Variant.Answers (v : Variant) (status : String) (r : Response) : Prop where
  status : v.status = status
  description : v.description = if r.description = "" then none else some r.description

/-- One variant for each content type, in order, or a single void one. -/
inductive Contributes (status : String) (r : Response) : List Variant → Prop
  | void {v : Variant} (bare : r.content = []) (answers : v.Answers status r)
      (own : v.contentType = "" ∧ v.type = .void ∧ v.schema = none) : Contributes status r [v]
  | contents {share : List Variant} (given : r.content ≠ [])
      (answers : ∀ v ∈ share, v.Answers status r)
      (own : List.Forall₂ (fun c v => v.contentType = c.1 ∧ v.type = schemaType c.2.schema ∧
        v.schema = c.2.schema) r.content share) : Contributes status r share

theorem Contributes.status {status : String} {r : Response} {share : List Variant}
    (h : Contributes status r share) : ∀ v ∈ share, v.status = status := by
  intro v mem
  cases h with
  | void _ answers _ => exact List.mem_singleton.mp mem ▸ answers.status
  | contents _ answers _ => exact (answers v mem).status

theorem Contributes.ne_nil {status : String} {r : Response} {share : List Variant}
    (h : Contributes status r share) : share ≠ [] := by
  cases h with
  | void _ _ _ => exact List.cons_ne_nil _ _
  | contents given _ own =>
    rintro rfl
    exact given (List.forall₂_nil_right_iff.mp own)

theorem responseVariants_contributes (operation status : String) (r : Response) :
    Contributes status r (responseVariants operation status r) := by
  have text : (if r.description == "" then none else some r.description) =
      if r.description = "" then none else some r.description := by
    simp
  unfold responseVariants
  dsimp only
  split
  · rename_i bare
    exact .void (List.isEmpty_iff.mp bare) ⟨rfl, text⟩ ⟨rfl, rfl, rfl⟩
  · rename_i given
    refine .contents (fun bare => given (List.isEmpty_iff.mpr bare)) ?_ ?_
    · intro v mem
      obtain ⟨c, _, rfl⟩ := List.mem_map.mp mem
      exact ⟨rfl, text⟩
    · rw [List.forall₂_map_right_iff, List.forall₂_same]
      exact fun c _ => ⟨rfl, rfl, rfl⟩

/-- Every variant is in its place: `shares` holds what each declared response contributes. -/
structure Responses.Breakdown (r : Responses) (declared : List (String × Response))
    (shares : List (List Variant)) : Prop where
  contributes : List.Forall₂ (fun d share => Contributes d.1 d.2 share) declared shares
  errors : r.errors =
    shares.flatten.filter fun v => ¬Succeeds (Keyed.keys declared) v.status
  success : (∃ s ∈ Keyed.keys declared, Succeeds (Keyed.keys declared) s) → r.success =
    shares.flatten.filter fun v => Succeeds (Keyed.keys declared) v.status
  fallback : (∀ s ∈ Keyed.keys declared, ¬Succeeds (Keyed.keys declared) s) →
    ∃ v, r.success = [v] ∧ v.status = "default" ∧ v.contentType = "" ∧ v.type = .any ∧
      v.type.write = "unknown" ∧ v.schema = none ∧ v.description = none
  nonempty : r.success ≠ []
  succeed : ∀ v ∈ r.success, Succeeds (Keyed.keys declared) v.status
  fail : ∀ v ∈ r.errors, ¬Succeeds (Keyed.keys declared) v.status

namespace Responses

def declaredVariants (operation : String) (responses : List (String × Referenced Response)) :
    List Variant :=
  responses.flatMap fun d =>
    match d.2 with
    | .item r => responseVariants operation d.1 r
    | .ref _ => []

theorem declaredVariants_eq (operation : String)
    (responses : List (String × Referenced Response)) :
    declaredVariants operation responses =
      (responses.filterMap fun d => d.2.item?.map fun r => (d.1, r)).flatMap
        fun d => responseVariants operation d.1 d.2 := by
  induction responses with
  | nil => rfl
  | cons d rest ih =>
    rw [declaredVariants] at ih ⊢
    rw [List.flatMap_cons, ih]
    obtain ⟨status, r | path⟩ := d <;> rfl

theorem exists_variant_iff (operation : String) {given : List (String × Response)}
    {P : String → Prop} :
    (∃ v ∈ given.flatMap fun d => responseVariants operation d.1 d.2, P v.status) ↔
      ∃ d ∈ given, P d.1 := by
  constructor
  · rintro ⟨v, mem, holds⟩
    obtain ⟨d, listed, own⟩ := List.mem_flatMap.mp mem
    have status := (responseVariants_contributes operation d.1 d.2).status v own
    exact ⟨d, listed, status ▸ holds⟩
  · rintro ⟨d, listed, holds⟩
    have contributes := responseVariants_contributes operation d.1 d.2
    obtain ⟨v, own⟩ := List.exists_mem_of_ne_nil _ contributes.ne_nil
    have status := contributes.status v own
    exact ⟨v, List.mem_flatMap.mpr ⟨d, listed, own⟩, status.symm ▸ holds⟩

theorem decide_succeeds (responses : List (String × Referenced Response)) (status : String) :
    (isSuccessStatus status ||
      (status == "default" && !responses.any fun d => isSuccessStatus d.1)) =
        decide (Succeeds (Keyed.keys responses) status) := by
  rw [Bool.eq_iff_iff, decide_eq_true_iff]
  simp [Succeeds, Keyed.keys, ← isSuccessStatus_iff]

theorem build_errors (operation : String) (responses : List (String × Referenced Response)) :
    (build operation responses).errors = (declaredVariants operation responses).filter
      fun v => ¬Succeeds (Keyed.keys responses) v.status := by
  unfold build
  simp only [decide_succeeds, decide_not]
  rfl

theorem build_success (operation : String) (responses : List (String × Referenced Response)) :
    (build operation responses).success =
      if ∃ d ∈ responses.filterMap fun d => d.2.item?.map fun r => (d.1, r),
          Succeeds (Keyed.keys responses) d.1 then
        (declaredVariants operation responses).filter
          fun v => Succeeds (Keyed.keys responses) v.status
      else [fallbackVariant operation] := by
  have split_up : (build operation responses).success =
      (let success := (declaredVariants operation responses).filter
          fun v => Succeeds (Keyed.keys responses) v.status
        if success.isEmpty then [fallbackVariant operation] else success) := by
    unfold build
    simp only [decide_succeeds]
    rfl
  have some_left : (declaredVariants operation responses).filter
      (fun v => Succeeds (Keyed.keys responses) v.status) ≠ [] ↔
        ∃ d ∈ responses.filterMap fun d => d.2.item?.map fun r => (d.1, r),
          Succeeds (Keyed.keys responses) d.1 := by
    rw [← exists_variant_iff operation, ← declaredVariants_eq, ne_eq, List.filter_eq_nil_iff]
    simp
  rw [split_up]
  by_cases succeeds : ∃ d ∈ responses.filterMap fun d => d.2.item?.map fun r => (d.1, r),
      Succeeds (Keyed.keys responses) d.1
  · rw [if_pos succeeds]
    exact if_neg fun empty => some_left.mpr succeeds (List.isEmpty_iff.mp empty)
  · rw [if_neg succeeds]
    exact if_pos (List.isEmpty_iff.mpr (not_not.mp fun left => succeeds (some_left.mp left)))

def inPlace (declared : List (String × Response)) : List (String × Referenced Response) :=
  declared.map fun d => (d.1, .item d.2)

theorem inPlace_injective : Function.Injective inPlace :=
  List.map_injective_iff.mpr fun _ _ same =>
    have parts := Prod.mk.inj same
    Prod.ext parts.1 (Referenced.item.inj parts.2)

theorem filterMap_inPlace (declared : List (String × Response)) :
    ((inPlace declared).filterMap fun d => d.2.item?.map fun r => (d.1, r)) = declared := by
  rw [inPlace, List.filterMap_map]
  exact List.filterMap_some

theorem keys_inPlace (declared : List (String × Response)) :
    Keyed.keys (inPlace declared) = Keyed.keys declared := by
  simp [Keyed.keys, inPlace, Function.comp_def]

theorem exists_succeeds_iff {declared : List (String × Response)} :
    (∃ d ∈ declared, Succeeds (Keyed.keys declared) d.1) ↔
      ∃ s ∈ Keyed.keys declared, Succeeds (Keyed.keys declared) s := by
  simp [Keyed.keys]

theorem build_breakdown (operation : String) (declared : List (String × Response)) :
    (build operation (inPlace declared)).Breakdown declared
      (declared.map fun d => responseVariants operation d.1 d.2) := by
  have errors := build_errors operation (inPlace declared)
  have success := build_success operation (inPlace declared)
  rw [declaredVariants_eq, filterMap_inPlace, keys_inPlace, List.flatMap_def] at errors success
  have contributes : List.Forall₂ (fun d share => Contributes d.1 d.2 share) declared
      (declared.map fun d => responseVariants operation d.1 d.2) := by
    rw [List.forall₂_map_right_iff, List.forall₂_same]
    exact fun d _ => responseVariants_contributes operation d.1 d.2
  have fail : ∀ v ∈ (build operation (inPlace declared)).errors,
      ¬Succeeds (Keyed.keys declared) v.status := by
    intro v mem
    rw [errors] at mem
    simpa using (List.mem_filter.mp mem).2
  by_cases succeeds : ∃ d ∈ declared, Succeeds (Keyed.keys declared) d.1
  · rw [if_pos succeeds] at success
    refine ⟨contributes, errors, fun _ => success, fun none => ?_, ?_, fun v mem => ?_, fail⟩
    · obtain ⟨s, known, holds⟩ := exists_succeeds_iff.mp succeeds
      exact absurd holds (none s known)
    · obtain ⟨v, listed, holds⟩ := (exists_variant_iff operation).mpr succeeds
      rw [List.flatMap_def] at listed
      rw [success]
      exact List.ne_nil_of_mem (List.mem_filter.mpr ⟨listed, decide_eq_true holds⟩)
    · rw [success] at mem
      simpa using (List.mem_filter.mp mem).2
  · rw [if_neg succeeds] at success
    refine ⟨contributes, errors, fun given => absurd (exists_succeeds_iff.mpr given) succeeds,
      fun _ => ⟨_, success, rfl, rfl, rfl, rfl, rfl, rfl⟩, ?_, fun v mem => ?_, fail⟩
    · rw [success]
      exact List.cons_ne_nil _ _
    · rw [success] at mem
      rw [List.mem_singleton.mp mem]
      refine .inr ⟨rfl, fun s known family => succeeds (exists_succeeds_iff.mpr ?_)⟩
      exact ⟨s, known, .inl family⟩

end Responses

theorem Endpoint.build_response {arena : Arena} {target : Target} {route : String}
    {shared : List (Referenced Parameter)} {verb : Verb} {op : Operation} {e : Endpoint}
    (h : build arena target route shared verb op = .ok e) :
    e.response = .build e.name.camel op.responses := by
  unfold build at h
  simp only [bind_eq_ok, pure_eq_ok] at h
  obtain ⟨_, _, rfl⟩ := h
  rfl

theorem Operation.Inlined.responses_inPlace {op : Operation} (inlined : op.Inlined) :
    ∃ declared, op.responses = Responses.inPlace declared := by
  have items : ∀ d ∈ op.responses, ∃ r, d.2 = .item r := fun d mem => inlined.responses d.1 d.2 mem
  generalize op.responses = responses at items
  induction responses with
  | nil => exact ⟨[], rfl⟩
  | cons d rest ih =>
    obtain ⟨declared, same⟩ := ih fun c mem => items c (List.mem_cons_of_mem _ mem)
    obtain ⟨r, item⟩ := items d List.mem_cons_self
    exact ⟨(d.1, r) :: declared, congrArg₂ List.cons (Prod.ext rfl item) same⟩

/-- Every operation of a resolved document has a client, whose response variants are those that the
declared responses contribute, each among the successes or the errors as its status says. -/
theorem Document.resolve_variants {doc : Document} {resolved : Resolved}
    (h : doc.resolve = .ok resolved) (target : Target) {route : String} {item : PathItem}
    (listed : (route, item) ∈ resolved.document.paths) {verb : Verb} {op : Operation}
    (own : (verb, op) ∈ item.operations) :
    ∃ (e : Endpoint) (declared : List (String × Response)) (shares : List (List Variant)),
      Endpoint.build resolved.arena target route item.parameters verb op = .ok e ∧
        op.responses = Responses.inPlace declared ∧ e.response.Breakdown declared shares := by
  have inlined := (resolve_paths_checked h listed).1.operations _ _ own
  obtain ⟨e, built⟩ := Endpoint.build_total inlined resolved.arena target route item.parameters verb
  obtain ⟨declared, same⟩ := inlined.responses_inPlace
  have breakdown := Responses.build_breakdown e.name.camel declared
  rw [← same, ← Endpoint.build_response built] at breakdown
  exact ⟨e, declared, _, built, same, breakdown⟩

def parcelResponses : List (String × Response) :=
  [("404", {}), ("default", { content := [("application/json", {}), ("text/plain", {})] })]

def parcelOperation : Operation := { responses := Responses.inPlace parcelResponses }

def parcels : Document where
  openapi := "3.0.3"
  info := { title := "Parcels", version := "1" }
  paths := [("/parcels", { operations := [(.get, parcelOperation)] })]

theorem parcels_resolve : parcels.resolve = .ok ⟨parcels, ⟨[]⟩⟩ := by
  have operation : ∀ location, parcels.resolveOperation location parcelOperation =
      .ok parcelOperation := by
    intro location
    simp [parcelOperation, parcelResponses, Responses.inPlace, Document.resolveOperation,
      Document.resolveParameters, Document.resolveOptionalBody, Document.resolveResponse,
      ComponentTable.follow, ComponentTable.followFrom, Document.resolveContent,
      Document.checkOption, bind, Except.bind, Except.map, pure, Except.pure]
  have paths : parcels.resolvePaths = .ok parcels.paths := by
    unfold Document.resolvePaths
    show [("/parcels", _)].mapM _ = _
    simp only [Document.resolvePathItem, Document.resolveParameters, List.mapM_cons,
      List.mapM_nil, operation, bind, Except.bind, Except.map, pure, Except.pure, List.zipIdx_nil]
    rfl
  have none : parcels.declaredSchemas = [] := rfl
  exact Document.resolve_of_plain paths (by simp [none]) (by simp [none]) (by simp [none])

theorem Document.resolve_variants_parcels : ∃ (e : Endpoint) (missing json text : Variant),
    Endpoint.build ⟨[]⟩ {} "/parcels" [] .get parcelOperation = .ok e ∧
      e.response.Breakdown parcelResponses [[missing], [json, text]] ∧
      e.response.success = [json, text] ∧ e.response.errors = [missing] := by
  obtain ⟨e, declared, shares, built, same, breakdown⟩ :=
    resolve_variants parcels_resolve {} List.mem_cons_self List.mem_cons_self
  cases Responses.inPlace_injective same
  have contributes := breakdown.contributes
  rcases contributes with _ | ⟨first, _ | ⟨second, _ | _⟩⟩
  rcases first with ⟨_, missing_answers, _⟩ | ⟨given, _, _⟩
  swap
  · exact absurd rfl given
  rcases second with ⟨bare, _, _⟩ | ⟨_, answers, own⟩
  · cases bare
  rcases own with _ | ⟨_, _ | ⟨_, _ | _⟩⟩
  rename_i missing _ _ _ json _ text _
  have known : Succeeds (Keyed.keys parcelResponses) "default" := by decide
  have unknown : ¬Succeeds (Keyed.keys parcelResponses) "404" := by decide
  have missing_status : missing.status = "404" := missing_answers.status
  have json_status : json.status = "default" := (answers json (by simp)).status
  have text_status : text.status = "default" := (answers text (by simp)).status
  refine ⟨e, missing, json, text, built, breakdown, ?_, ?_⟩
  · rw [breakdown.success ⟨"default", by simp [Keyed.keys, parcelResponses], known⟩]
    simp [missing_status, json_status, text_status, known, unknown]
  · rw [breakdown.errors]
    simp [missing_status, json_status, text_status, known, unknown]

end TypedClients
