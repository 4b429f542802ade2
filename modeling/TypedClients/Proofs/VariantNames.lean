import TypedClients.Proofs.Legibility
import TypedClients.Proofs.Variants

namespace TypedClients

open Text

namespace Name

def statusPart (status : String) : String :=
  String.ofList (trimStart (· == '_') (ofText status).pascal.toList)

theorem ofResponse_eq (operation status : String) (suffix : Option String) :
    ofResponse operation status suffix =
      (ofText operation).pascal ++ (statusPart status ++ suffix.getD "") :=
  String.append_assoc

theorem trimStart_guardDigit {cs : List Char} (leading : Leading cs) :
    trimStart (· == '_') (guardDigit cs) = cs := by
  have plain : trimStart (· == '_') cs = cs := by
    cases cs with
    | nil => rfl
    | cons c rest =>
      have letter := leading c rfl
      have other : (c == '_') = false := by
        rw [beq_eq_false_iff_ne]
        rintro rfl
        exact absurd letter (by decide)
      rw [trimStart, List.dropWhile_cons, other]
      rfl
  unfold guardDigit
  split
  · rw [trimStart, List.dropWhile_cons]
    exact plain
  · exact plain

theorem statusPart_of_words {status : String} (some_word : words status.toList ≠ []) :
    statusPart status = String.ofList (Text.pascal status.toList) := by
  unfold statusPart
  rw [ofText_of_words some_word, String.toList_ofList, trimStart_guardDigit (pascal_leading _)]

theorem statusPart_head (status : String) :
    ∃ c rest, (statusPart status).toList = c :: rest ∧ isAlphanumeric c = true := by
  by_cases some_word : words status.toList = []
  · have unnamed : (String.ofList (trimStart (· == '_') "Unnamed".toList)).toList =
        'U' :: "nnamed".toList := by decide
    unfold statusPart
    rw [ofText_of_no_words some_word]
    exact ⟨_, _, unnamed, by decide⟩
  · rw [statusPart_of_words some_word, String.toList_ofList]
    exact pascal_head some_word

end Name

open Name

/-- Responses with several content types carry them in their names. -/
def responseEndings (status : String) (r : Response) : List String :=
  if r.content.length ≤ 1 then [statusPart status]
  else r.content.map fun c => statusPart status ++ contentTypeSuffix c.1

theorem responseVariants_typeNames (operation status : String) (r : Response) :
    (responseVariants operation status r).map (·.typeName) =
      (responseEndings status r).map ((ofText operation).pascal ++ ·) := by
  unfold responseVariants responseEndings
  simp only [ofResponse_eq]
  match r.content with
  | [] => simp
  | [_] => simp
  | _ :: _ :: _ => simp [Function.comp_def]

namespace Responses

/-- The responses that are declared in place, with the one that stands in for a success that is not
declared. -/
def answered (responses : List (String × Referenced Response)) : List (String × Response) :=
  let given := responses.filterMap fun d => d.2.item?.map fun r => (d.1, r)
  if ∃ d ∈ given, Succeeds (Keyed.keys responses) d.1 then given else ("default", {}) :: given

def endings (responses : List (String × Referenced Response)) : List String :=
  (answered responses).flatMap fun d => responseEndings d.1 d.2

def typeNames (r : Responses) : List String := r.variants.map (·.typeName)

theorem build_typeNames_perm (operation : String)
    (responses : List (String × Referenced Response)) :
    (build operation responses).typeNames.Perm
      ((endings responses).map ((ofText operation).pascal ++ ·)) := by
  have success := build_success operation responses
  have variants := declaredVariants_eq operation responses
  unfold typeNames Responses.variants endings answered
  dsimp only
  generalize responses.filterMap (fun d => d.2.item?.map fun r => (d.1, r)) = given
    at success variants ⊢
  have names : (declaredVariants operation responses).map (·.typeName) =
      (given.flatMap fun d => responseEndings d.1 d.2).map ((ofText operation).pascal ++ ·) := by
    rw [variants, List.map_flatMap, List.map_flatMap]
    exact List.flatMap_congr fun d _ => responseVariants_typeNames operation d.1 d.2
  have split_up := List.filter_append_perm
    (fun v : Variant => decide (Succeeds (Keyed.keys responses) v.status))
    (declaredVariants operation responses)
  rw [success, build_errors]
  simp only [decide_not]
  by_cases succeeds : ∃ d ∈ given, Succeeds (Keyed.keys responses) d.1
  · rw [if_pos succeeds, if_pos succeeds, ← names]
    exact split_up.map _
  · have none : (declaredVariants operation responses).filter
        (fun v => Succeeds (Keyed.keys responses) v.status) = [] := by
      refine List.filter_eq_nil_iff.mpr fun v listed holds => succeeds ?_
      rw [variants] at listed
      exact (exists_variant_iff operation).mp ⟨v, listed, by simpa using holds⟩
    rw [if_neg succeeds, if_neg succeeds, List.flatMap_cons, List.map_append, List.map_append,
      ← names, ← responseVariants_typeNames]
    simp only [none, List.nil_append] at split_up
    exact (split_up.map _).append_left _

end Responses

def StandardStatus (status : String) : Prop :=
  status = "default" ∨ ∃ a b c : Char, a.isDigit = true ∧
    ((b.isDigit = true ∧ c.isDigit = true) ∨ (b = 'X' ∧ c = 'X')) ∧ status.toList = [a, b, c]

theorem digit_plain {c : Char} (h : c.isDigit = true) :
    isAlphanumeric c = true ∧ isUppercase c = false ∧ c.toUpper = c :=
  ascii_forall (P := fun c => c.isDigit = true →
      isAlphanumeric c = true ∧ isUppercase c = false ∧ c.toUpper = c)
    (by decide +kernel) (isAscii_of_isDigit h) h

theorem pascal_of_digits {a b c : Char} (ha : a.isDigit = true) (hb : b.isDigit = true)
    (hc : c.isDigit = true) : Text.pascal [a, b, c] = [a, b, c] := by
  obtain ⟨letter_a, low_a, same⟩ := digit_plain ha
  obtain ⟨letter_b, low_b, _⟩ := digit_plain hb
  obtain ⟨letter_c, low_c, _⟩ := digit_plain hc
  have ascii : Ascii [a, b, c] := by simp [Ascii, isAscii_of_isDigit, ha, hb, hc]
  have spelled := pascal_eq_iff_legible ascii (by simp [letter_a, letter_b, letter_c]) low_a
  rw [same] at spelled
  exact spelled.mpr (by simp [legible, legibleFrom, legibleHere, low_a, low_b, low_c])

theorem pascal_of_family {a : Char} (ha : a.isDigit = true) :
    Text.pascal [a, 'X', 'X'] = [a, 'x', 'x'] :=
  ascii_forall (P := fun a => a.isDigit = true → Text.pascal [a, 'X', 'X'] = [a, 'x', 'x'])
    (by decide +kernel) (isAscii_of_isDigit ha) ha

theorem Name.statusPart_toList {status : String} {cs : List Char} (nonempty : cs ≠ [])
    (spelled : Text.pascal status.toList = cs) : (statusPart status).toList = cs := by
  have some_word : words status.toList ≠ [] := by
    intro none
    rw [Text.pascal, none] at spelled
    exact nonempty spelled.symm
  rw [statusPart_of_words some_word, String.toList_ofList, spelled]

def statusOf (name : List Char) : String :=
  if name.take 3 = ['D', 'e', 'f'] then "default"
  else if (name.take 3).tail = ['x', 'x'] then String.ofList (name.take 1 ++ ['X', 'X'])
  else String.ofList (name.take 3)

theorem statusOf_statusPart {status : String} (h : StandardStatus status) (tail : List Char) :
    statusOf ((statusPart status).toList ++ tail) = status := by
  rcases h with rfl | ⟨a, b, c, ha, ⟨hb, hc⟩ | ⟨rfl, rfl⟩, whole⟩
  · have part : (statusPart "default").toList = 'D' :: 'e' :: 'f' :: "ault".toList := by decide
    rw [part]
    rfl
  · have part : (statusPart status).toList = [a, b, c] :=
      statusPart_toList (List.cons_ne_nil _ _) (by rw [whole, pascal_of_digits ha hb hc])
    have first : a ≠ 'D' := ne_of_isDigit ha (by decide)
    have second : b ≠ 'x' := ne_of_isDigit hb (by decide)
    rw [part, statusOf, ← String.ofList_toList (s := status), whole]
    simp [first, second]
  · have part : (statusPart status).toList = [a, 'x', 'x'] :=
      statusPart_toList (List.cons_ne_nil _ _) (by rw [whole, pascal_of_family ha])
    have first : a ≠ 'D' := ne_of_isDigit ha (by decide)
    rw [part, statusOf, ← String.ofList_toList (s := status), whole]
    simp [first]

theorem StandardStatus.eq_of_append {a b x y : String} (ha : StandardStatus a)
    (hb : StandardStatus b) (same : statusPart a ++ x = statusPart b ++ y) : a = b := by
  have chars := congrArg (fun name => statusOf name.toList) same
  simpa [String.toList_append, statusOf_statusPart ha, statusOf_statusPart hb] using chars

theorem mem_responseEndings {status name : String} {r : Response}
    (h : name ∈ responseEndings status r) : ∃ tail, name = statusPart status ++ tail := by
  unfold responseEndings at h
  split at h
  · exact ⟨"", by rw [List.mem_singleton.mp h, String.append_empty]⟩
  · obtain ⟨c, _, rfl⟩ := List.mem_map.mp h
    exact ⟨_, rfl⟩

theorem nodup_responseEndings (status : String) (r : Response) : (responseEndings status r).Nodup ↔
    (1 < r.content.length → (r.content.map fun c => contentTypeSuffix c.1).Nodup) := by
  unfold responseEndings
  split
  · rename_i few
    exact iff_of_true (List.nodup_singleton _) fun many => absurd few (Nat.not_le.mpr many)
  · rename_i many
    have joined : r.content.map (fun c => statusPart status ++ contentTypeSuffix c.1) =
        (r.content.map fun c => contentTypeSuffix c.1).map (statusPart status ++ ·) := by
      rw [List.map_map]
      rfl
    rw [joined, List.nodup_map_iff fun a b => (String.append_right_inj _).mp]
    exact ⟨fun distinct _ => distinct, fun h => h (Nat.not_le.mp many)⟩

namespace Responses

theorem answered_inPlace (declared : List (String × Response)) :
    answered (inPlace declared) = declared ∨
      answered (inPlace declared) = ("default", {}) :: declared := by
  unfold answered
  rw [filterMap_inPlace]
  dsimp only
  split
  · exact .inl rfl
  · exact .inr rfl

theorem nodup_answered {declared : List (String × Response)}
    (distinct : (Keyed.keys declared).Nodup) :
    (Keyed.keys (answered (inPlace declared))).Nodup := by
  unfold answered
  rw [filterMap_inPlace, keys_inPlace]
  dsimp only
  split
  · exact distinct
  · rename_i none
    refine List.nodup_cons.mpr ⟨fun mem => ?_, distinct⟩
    -- Without any success a declared `default` would be one.
    obtain ⟨d, listed, same⟩ := List.mem_map.mp mem
    refine none ⟨d, listed, .inr ⟨same, fun s known family => ?_⟩⟩
    obtain ⟨other, member, rfl⟩ := List.mem_map.mp known
    exact none ⟨other, member, .inl family⟩

/-- The types of an operation have names of their own just where the statuses and content types
differ in the form in which names hold them. -/
theorem build_typeNames_nodup (operation : String)
    (responses : List (String × Referenced Response)) :
    ((build operation responses).typeNames.Nodup ↔ (endings responses).Nodup) ∧
      ∀ declared, responses = inPlace declared → (Keyed.keys declared).Nodup →
        (∀ status ∈ Keyed.keys declared, StandardStatus status) →
          ((build operation responses).typeNames.Nodup ↔
            ∀ d ∈ declared, 1 < d.2.content.length →
              (d.2.content.map fun c => contentTypeSuffix c.1).Nodup) := by
  have names : (build operation responses).typeNames.Nodup ↔ (endings responses).Nodup := by
    rw [(build_typeNames_perm operation responses).nodup_iff]
    exact List.nodup_map_iff fun a b => (String.append_right_inj _).mp
  refine ⟨names, ?_⟩
  rintro declared rfl distinct standard
  have answered_standard : ∀ d ∈ answered (inPlace declared), StandardStatus d.1 := by
    intro d mem
    rcases answered_inPlace declared with same | same
    · exact standard d.1 (List.mem_map_of_mem (same ▸ mem))
    · rcases List.mem_cons.mp (same ▸ mem) with rfl | listed
      · exact .inl rfl
      · exact standard d.1 (List.mem_map_of_mem listed)
  have apart : (answered (inPlace declared)).Pairwise
      fun d e => List.Disjoint (responseEndings d.1 d.2) (responseEndings e.1 e.2) := by
    refine (List.pairwise_map.mp (nodup_answered distinct)).imp_of_mem ?_
    intro d e mem_d mem_e different name own other
    obtain ⟨x, rfl⟩ := mem_responseEndings own
    obtain ⟨y, same⟩ := mem_responseEndings other
    exact different
      ((answered_standard d mem_d).eq_of_append (answered_standard e mem_e) same)
  rw [names, endings, List.nodup_flatMap, and_iff_left apart]
  simp only [nodup_responseEndings]
  rcases answered_inPlace declared with same | same
  · rw [same]
  · rw [same, List.forall_mem_cons]
    exact and_iff_right fun many => absurd many (Nat.not_lt_zero 1)

def report : Response where
  content := [("application/json", {}), ("application/json; charset=utf-8", {})]

theorem build_typeNames_nodup_report :
    ¬(build "getReport" (inPlace [("200", report)])).typeNames.Nodup := by
  have standard : ∀ status ∈ ["200"], StandardStatus status := by
    intro status mem
    cases List.mem_singleton.mp mem
    exact .inr ⟨'2', '0', '0', by decide, .inl ⟨by decide, by decide⟩, by decide⟩
  have same : essence "application/json; charset=utf-8" = essence "application/json" := by
    decide +kernel
  have twice : ¬(report.content.map fun c => contentTypeSuffix c.1).Nodup := by
    simp [report, contentTypeSuffix, same]
  obtain ⟨_, exactly⟩ := build_typeNames_nodup "getReport" (inPlace [("200", report)])
  rw [exactly [("200", report)] rfl (by decide) standard]
  exact fun all => twice (all _ List.mem_cons_self (by decide))

end Responses

end TypedClients
