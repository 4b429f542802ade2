import TypedClients.Proofs.Respelling

namespace TypedClients

theorem Text.replaceFrom_pair (c d : Char) (new rest : List Char) :
    replaceFrom [c, d] new 0 (c :: d :: rest) = new ++ replaceFrom [c, d] new 0 rest :=
  replaceFrom_append (List.cons_ne_nil c [d]) rest

namespace Pointer

open Text

theorem escapeChars_eq (cs : List Char) :
    escapeChars cs = replaceFrom ['/'] ['~', '1'] 0 (replaceFrom ['~'] ['~', '0'] 0 cs) := by
  rw [replaceFrom_single, replaceFrom_single]
  induction cs with
  | nil => rfl
  | cons c rest ih =>
    rw [escapeChars, List.flatMap_cons, List.flatMap_append, ← ih]
    by_cases tilde : c = '~'
    · simp [tilde]
    · by_cases slash : c = '/'
      · simp [slash]
      · simp [tilde, slash]

theorem cons_of_slashed {cs tail : List Char}
    (h : replaceFrom ['~', '1'] ['/'] 0 cs = '0' :: tail) : ∃ rest, cs = '0' :: rest := by
  cases cs with
  | nil => cases h
  | cons c rest =>
    rw [replaceFrom] at h
    split at h
    · cases h
    · obtain ⟨rfl, _⟩ := List.cons.inj h
      exact ⟨rest, rfl⟩

theorem unescapeChars_eq (cs : List Char) :
    unescapeChars cs = replaceFrom ['~', '0'] ['~'] 0 (replaceFrom ['~', '1'] ['/'] 0 cs) := by
  fun_induction unescapeChars cs with
  | case1 => rfl
  | case2 rest ih =>
    have tilde : ¬ ['~', '1'] <+: '~' :: '0' :: rest := by simp
    have zero : ¬ ['~', '1'] <+: '0' :: rest := by simp
    rw [replaceFrom_cons tilde, replaceFrom_cons zero, replaceFrom_pair, ih, List.singleton_append]
  | case3 rest ih =>
    have slash : ¬ ['~', '0'] <+: '/' :: replaceFrom ['~', '1'] ['/'] 0 rest := by simp
    rw [replaceFrom_pair, List.singleton_append, replaceFrom_cons slash, ih]
  | case4 c rest zero one ih =>
    have first : ¬ ['~', '1'] <+: c :: rest := by
      intro found
      obtain ⟨tail, same⟩ := found
      obtain ⟨tilde, digit⟩ := List.cons.inj same
      exact one tail tilde.symm digit.symm
    have second : ¬ ['~', '0'] <+: c :: replaceFrom ['~', '1'] ['/'] 0 rest := by
      intro found
      obtain ⟨tail, same⟩ := found
      obtain ⟨tilde, digit⟩ := List.cons.inj same
      obtain ⟨more, before⟩ := cons_of_slashed digit.symm
      exact zero more tilde.symm before
    rw [replaceFrom_cons first, replaceFrom_cons second, ih]

theorem escape_eq_replace (segment : String) :
    escape segment = replace "/" "~1" (replace "~" "~0" segment) := by
  simp [escape, escapeChars_eq, replace]

theorem unescape_eq_replace (segment : String) :
    unescape segment = replace "~0" "~" (replace "~1" "/" segment) := by
  simp [unescape, unescapeChars_eq, replace]

theorem schemaRoot_ne_legacyRoot (raw other : String) : schemaRoot ++ raw ≠ legacyRoot ++ other := by
  intro same
  have lead := congrArg (afterLead? schemaRoot) same
  rw [afterLead?_append] at lead
  simp [afterLead?, hasLead, schemaRoot, legacyRoot] at lead

theorem IsRoot.append_inj {root other m n : String} (h : IsRoot root) (h' : IsRoot other)
    (same : root ++ m = other ++ n) : m = n := by
  rcases h with rfl | rfl <;> rcases h' with rfl | rfl
  · exact (String.append_right_inj _).mp same
  · exact absurd same (schemaRoot_ne_legacyRoot m n)
  · exact absurd same.symm (schemaRoot_ne_legacyRoot n m)
  · exact (String.append_right_inj _).mp same

end Pointer

theorem normalReference_ofSchema {name : String} (h : name ≠ "") :
    normalReference (Pointer.ofSchema name) = Pointer.ofSchema name := by
  rw [normalReference, Pointer.schemaName?_ofSchema h]

theorem normalReference_normalReference (path : String) :
    normalReference (normalReference path) = normalReference path := by
  cases named : Pointer.schemaName? path with
  | none =>
    have same : normalReference path = path := by rw [normalReference, named]
    rw [same, same]
  | some name =>
    have same : normalReference path = Pointer.ofSchema name := by rw [normalReference, named]
    rw [same, normalReference_ofSchema (Pointer.schemaName?_ne_empty named)]

theorem normalSchema_eq_self {s : Schema} (h : ∀ c, s.Holds c → normalRef c = c) :
    normalSchema s = s := by
  have table (pairs : List (String × SchemaRef))
      (inside : ∀ name c, (name, c) ∈ pairs → normalRef c = c) : normalTable pairs = pairs := by
    have same : ∀ p ∈ pairs, (p.1, normalRef p.2) = p := by
      intro p mem
      rw [inside p.1 p.2 mem]
    rw [normalTable_eq, Keyed.mapValues]
    exact (List.map_congr_left same).trans (List.map_id pairs)
  have list (members : List SchemaRef) (inside : ∀ c ∈ members, normalRef c = c) :
      normalList members = members := by
    rw [normalList_eq]
    exact (List.map_congr_left inside).trans (List.map_id members)
  have option (o : Option SchemaRef) (inside : ∀ c, o = some c → normalRef c = c) :
      normalOption o = o := by
    cases o with
    | none => rfl
    | some c => rw [normalOption, inside c rfl]
  have additional (a : Option (Additional Schema))
      (inside : ∀ c, a = some (.schema c) → normalRef c = c) : normalAdditional a = a := by
    rcases a with _ | _ | c
    · rfl
    · rfl
    · rw [normalAdditional, inside c rfl]
  have properties := table s.properties fun _ c mem => h c (.property mem)
  have patterns := table s.patternProperties fun _ c mem => h c (.pattern mem)
  have dependents := table s.dependentSchemas fun _ c mem => h c (.dependent mem)
  have definitions := table s.definitions fun _ c mem => h c (.definition mem)
  have allOf := list s.allOf fun c mem => h c (.allOf mem)
  have oneOf := list s.oneOf fun c mem => h c (.oneOf mem)
  have anyOf := list s.anyOf fun c mem => h c (.anyOf mem)
  have items := option s.items fun c given => h c (.items given)
  have notSchema := option s.notSchema fun c given => h c (.not given)
  have ifSchema := option s.ifSchema fun c given => h c (.ifBranch given)
  have thenSchema := option s.thenSchema fun c given => h c (.thenBranch given)
  have elseSchema := option s.elseSchema fun c given => h c (.elseBranch given)
  have extra := additional s.additionalProperties fun c given => h c (.additional given)
  cases s
  rw [normalSchema, properties, patterns, dependents, definitions, allOf, oneOf, anyOf, items,
    notSchema, ifSchema, thenSchema, elseSchema, extra]

theorem normalRef_normalRef (r : SchemaRef) : normalRef (normalRef r) = normalRef r := by
  induction r using SchemaRef.induction with
  | ref path => rw [normalRef, normalRef, normalReference_normalReference]
  | item s ih =>
    have settled : normalSchema (normalSchema s) = normalSchema s := by
      apply normalSchema_eq_self
      intro c held
      obtain ⟨original, stands, rfl⟩ := Schema.holds_of_normal held
      exact ih original stands
    rw [normalRef, normalRef, settled]

/-- What was accepted once is accepted wherever it stands, and comes out as it is. -/
theorem checkSchema_settled {known : String → Bool} {location : String} {r t : SchemaRef}
    (run : checkSchema known location r = .ok t) (elsewhere : String) :
    checkSchema known elsewhere t = .ok t := by
  obtain ⟨rfl, clean⟩ := checkSchema_eq_ok.mp run
  have sound : ∀ path, (normalRef r).Mentions path →
      ∃ name, Pointer.schemaName? path = some name ∧ known name = true := by
    intro path mentioned
    obtain ⟨original, stands, rfl⟩ := mentions_of_normalRef mentioned
    obtain ⟨place, site⟩ := SchemaRef.mem_sites.mpr stands
    obtain ⟨name, named, declared⟩ := referenceFault?_eq_none.mp (clean (place, original) site)
    exact ⟨name, SchemaRef.schemaName?_normalReference.mpr named, declared⟩
  have again := checkSchema_of_named elsewhere sound
  rwa [normalRef_normalRef] at again

namespace Pointer

/-- A name and its reference determine each other, under either root. -/
theorem references_determine_names :
    (∀ segment, escape segment = Text.replace "/" "~1" (Text.replace "~" "~0" segment) ∧
      unescape segment = Text.replace "~0" "~" (Text.replace "~1" "/" segment)) ∧
    (∀ segment, unescape (escape segment) = segment ∧ '/' ∉ (escape segment).toList) ∧
    (∀ root name, IsRoot root → name ≠ "" → schemaName? (root ++ escape name) = some name) ∧
    (∀ root other m n, IsRoot root → IsRoot other → m ≠ n →
      root ++ escape m ≠ other ++ escape n) ∧
    (∀ name, name ≠ "" → normalReference (ofSchema name) = ofSchema name) ∧
    (∀ known location r t, checkSchema known location r = .ok t →
      ∀ elsewhere, checkSchema known elsewhere t = .ok t) := by
  refine ⟨?_, ?_, ?_, ?_, ?_, ?_⟩
  · intro segment
    exact ⟨escape_eq_replace segment, unescape_eq_replace segment⟩
  · intro segment
    exact ⟨unescape_escape segment, slash_not_mem_escape segment⟩
  · intro root name h some_char
    exact schemaName?_escape h some_char
  · intro root other m n h h' distinct same
    exact distinct (escape_injective (h.append_inj h' same))
  · intro name some_char
    exact normalReference_ofSchema some_char
  · intro known location r t run elsewhere
    exact checkSchema_settled run elsewhere

theorem references_determine_names_tilde : escape "~1/~0" = "~01~1~00" ∧
    schemaName? (legacyRoot ++ escape "~1/~0") = some "~1/~0" ∧
    schemaRoot ++ escape "~1" ≠ legacyRoot ++ escape "/" ∧
    normalReference (ofSchema "~1/~0") = ofSchema "~1/~0" ∧
    ∀ elsewhere, checkSchema (· == "~1/~0") elsewhere (.ref "#/components/schemas/~01~1~00") =
      .ok (.ref "#/components/schemas/~01~1~00") := by
  obtain ⟨_, _, named, apart, spelled, settled⟩ := references_determine_names
  have run : checkSchema (· == "~1/~0") "#/paths" (.ref "#/definitions/~01~1~00") =
      .ok (.ref "#/components/schemas/~01~1~00") := by
    rw [checkSchema, SchemaRef.sites]
    rfl
  refine ⟨by decide, named legacyRoot "~1/~0" (.inr rfl) (by decide),
    apart schemaRoot legacyRoot "~1" "/" (.inl rfl) (.inr rfl) (by decide),
    spelled "~1/~0" (by decide), settled _ _ _ _ run⟩

end Pointer

end TypedClients
