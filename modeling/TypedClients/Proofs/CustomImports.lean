import TypedClients.Proofs.OutputPaths
import TypedClients.Proofs.Success

namespace TypedClients

theorem mem_walkStep {place : List String} {part d : String} (h : d ∈ walkStep place part) :
    d ∈ place ∨ d = ".." ∨ Plain d := by
  unfold walkStep at h
  split at h
  · exact .inl h
  · rename_i named
    split at h
    · split at h
      · exact .inr (.inl (List.mem_singleton.mp h))
      · split at h
        · rcases List.mem_cons.mp h with same | above
          · exact .inr (.inl same)
          · exact .inl above
        · exact .inl (List.mem_cons_of_mem _ h)
    · rename_i down
      rcases List.mem_cons.mp h with rfl | above
      · exact .inr (.inr ⟨fun none => named (.inl none), fun here => named (.inr here), down⟩)
      · exact .inl above

theorem mem_walk {parts : List String} {d : String} (h : d ∈ walk [] parts) :
    d = ".." ∨ Plain d := by
  induction parts using List.reverseRecOn with
  | nil => cases h
  | append_singleton rest part ih =>
    rw [walk_append] at h
    rcases mem_walkStep h with before | given
    · exact ih before
    · exact given

def climb (steps : Nat) (place : List String) : List String :=
  walk place (List.replicate steps "..")

theorem climb_up (steps : Nat) (place : List String) :
    climb (steps + 1) place = walkStep (climb steps place) ".." := by
  unfold climb
  rw [List.replicate_succ', walk_append]
  rfl

theorem climb_next (steps : Nat) (place : List String) :
    climb (steps + 1) place = climb steps (walkStep place "..") := rfl

theorem walk_eq (parts : List String) : ∃ (down : List String) (steps : Nat),
    (∀ d ∈ down, Plain d) ∧ ∀ place, walk place parts = down ++ climb steps place := by
  induction parts using List.reverseRecOn with
  | nil => exact ⟨[], 0, (fun d none => by cases none), fun _ => rfl⟩
  | append_singleton rest part ih =>
    obtain ⟨down, steps, plain, same⟩ := ih
    have last : ∀ place, walk place (rest ++ [part]) = walkStep (down ++ climb steps place) part := by
      intro place
      rw [walk_append, same]
      rfl
    by_cases stays : part = "" ∨ part = "."
    · refine ⟨down, steps, plain, fun place => ?_⟩
      rw [last]
      exact if_pos stays
    · by_cases up : part = ".."
      · subst up
        cases down with
        | nil => exact ⟨[], steps + 1, plain, fun place => (last place).trans (climb_up ..).symm⟩
        | cons d below =>
          refine ⟨below, steps, fun e mem => plain e (List.mem_cons_of_mem _ mem), fun place => ?_⟩
          rw [last]
          exact walkStep_up (plain d List.mem_cons_self) _
      · have named : Plain part := ⟨fun none => stays (.inl none), fun here => stays (.inr here), up⟩
        refine ⟨part :: down, steps, fun d mem => ?_, fun place => ?_⟩
        · rcases List.mem_cons.mp mem with rfl | below
          · exact named
          · exact plain d below
        · rw [last]
          exact walkStep_plain named _

theorem climb_outside (steps above : Nat) :
    climb steps (List.replicate above "..") = List.replicate (above + steps) ".." := by
  induction steps generalizing above with
  | zero => rfl
  | succ n ih =>
    have up : walkStep (List.replicate above "..") ".." = List.replicate (above + 1) ".." := by
      cases above with
      | zero => rfl
      | succ k => simp [walkStep, List.replicate_succ]
    rw [climb_next, up, ih]
    congr 1
    omega

theorem count_climb (steps : Nat) {place : List String} (plain : ∀ d ∈ place, Plain d) :
    (climb steps place).count ".." = steps - place.length := by
  induction steps generalizing place with
  | zero =>
    rw [Nat.zero_sub, List.count_eq_zero]
    exact fun mem => (plain _ mem).up rfl
  | succ n ih =>
    cases place with
    | nil =>
      have outside := climb_outside (n + 1) 0
      rw [List.replicate_zero] at outside
      simp [outside]
    | cons d above =>
      have rest := ih fun e mem => plain e (List.mem_cons_of_mem _ mem)
      rw [climb_next, walkStep_up (plain d List.mem_cons_self), rest, List.length_cons]
      omega

theorem walk_eq_walk_nil {place : List String} (plain : ∀ d ∈ place, Plain d)
    (parts : List String) : walk place parts = walk [] parts ↔ place = [] := by
  constructor
  · intro same
    obtain ⟨down, steps, _, ways⟩ := walk_eq parts
    rw [ways, ways, List.append_cancel_left_eq] at same
    have left := count_climb steps plain
    have right : (climb steps []).count ".." = steps - 0 :=
      count_climb steps fun d none => by cases none
    rw [same, right] at left
    cases steps with
    | zero => exact same
    | succ n =>
      have short : place.length = 0 := by omega
      exact List.length_eq_zero_iff.mp short
  · rintro rfl
    rfl

def OutputUnit.place (u : OutputUnit) : List String := walk [] (directory u.path)

/-- In the unit's file the specifier designates the module that it designates in the output
directory. -/
def OutputUnit.Reaches (u : OutputUnit) (specifier : String) : Prop :=
  walk u.place (pathParts specifier) = walk [] (pathParts specifier)

theorem OutputUnit.reaches_iff {u : OutputUnit} (inside : ".." ∉ u.place) (specifier : String) :
    u.Reaches specifier ↔ u.place = [] := by
  refine walk_eq_walk_nil (fun d mem => ?_) _
  rcases mem_walk mem with rfl | plain
  · exact absurd mem inside
  · exact plain

/-- An operation of the unit is sent by the function, or its query is written by it. -/
def Run.Employs (r : Run) (u : OutputUnit) (m : Mutator) : Prop :=
  (∃ e ∈ u.endpoints r.endpoints, e.mutator = some m) ∨
    (r.target.paramsSerializer = some m ∧ ∃ e ∈ u.endpoints r.endpoints, e.queryParams ≠ [])

theorem mem_distinct {ms : List Mutator} {m : Mutator} :
    m ∈ ms.foldl (fun acc m => if acc.contains m then acc else acc ++ [m]) [] ↔ m ∈ ms := by
  suffices grown : ∀ acc : List Mutator,
      m ∈ ms.foldl (fun acc m => if acc.contains m then acc else acc ++ [m]) acc ↔
        m ∈ acc ∨ m ∈ ms by simpa using grown []
  induction ms with
  | nil => simp
  | cons k rest ih =>
    intro acc
    rw [List.foldl_cons, ih]
    by_cases known : acc.contains k = true
    · have mem : k ∈ acc := List.contains_iff_mem.mp known
      rw [if_pos known, List.mem_cons]
      constructor
      · exact fun given => given.imp_right .inr
      · rintro (earlier | rfl | later)
        · exact .inl earlier
        · exact .inl mem
        · exact .inr later
    · rw [if_neg known, List.mem_append, List.mem_singleton, List.mem_cons, or_assoc]

namespace Run

variable {r : Run} {c : Rendering} {m : Mutator}

theorem customDependencies_employed (h : r.Employs c.unit m) :
    Client.mutatorDependency m ∈ Client.customDependencies
      (r.state.dependencyOptions (c.unit.endpoints r.endpoints)) := by
  unfold Client.customDependencies
  rcases h with ⟨e, own, sent⟩ | ⟨serializer, e, own, query⟩
  · apply List.mem_append_left
    apply List.mem_map_of_mem
    exact mem_distinct.mpr (List.mem_filterMap.mpr ⟨e, own, sent⟩)
  · apply List.mem_append_right
    have some_query : (r.state.dependencyOptions (c.unit.endpoints r.endpoints)).hasQueryParams =
        true := List.any_eq_true.mpr ⟨e, own, by simpa using query⟩
    have given : (r.state.dependencyOptions (c.unit.endpoints r.endpoints)).paramsSerializer =
        some m := serializer
    rw [if_pos some_query, given]
    exact List.mem_singleton_self _

theorem imports_employed (custom : ∀ o, Client.customDependencies o ⊆ r.backend.dependencies o)
    (h : r.Employs c.unit m) : Imports (Page.imports r (.client c)) m.path m.name := by
  refine imports_unit.mpr (.inl (imports_append.mpr (.inl ?_)))
  exact ⟨_, custom _ (customDependencies_employed h), rfl, _, List.mem_singleton_self _, rfl⟩

end Run

theorem CommandLine.registry_custom {id : String} {b : Backend} (h : registry.backend id = .ok b)
    (client : id ≠ "zod") (o : DependencyOptions) :
    Client.customDependencies o ⊆ b.dependencies o := by
  rcases registry_backend_named h with ⟨_, rfl⟩ | ⟨_, rfl⟩ | ⟨_, rfl⟩ | ⟨named, _⟩
  · exact List.Subset.refl _
  · exact List.subset_cons_self _ _
  · exact List.subset_cons_self _ _
  · exact absurd named client

section

variable {endpoints : List Endpoint} {mode : OutputMode} {title fileStem : String} {u : OutputUnit}

theorem unit_place_split (named : ∀ e ∈ endpoints, ∃ source, e.name = Name.ofText source)
    (splits : mode.splitsModels = true) (h : u ∈ planUnits endpoints mode title fileStem) :
    u.place ≠ [] ∧ ".." ∉ u.place := by
  obtain ⟨d, below, plain⟩ := unit_directory_split named splits h
  have place : u.place = [d] := by
    rw [OutputUnit.place, below]
    exact walkStep_plain plain []
  rw [place]
  refine ⟨List.cons_ne_nil _ _, fun mem => plain.up ?_⟩
  exact (List.mem_singleton.mp mem).symm

theorem unit_place_top (top : mode = .tags ∨ mode.splitsModels = false ∧ '/' ∉ fileStem.toList)
    (h : u ∈ planUnits endpoints mode title fileStem) : u.place = [] := by
  have whole : '/' ∉ fileStem.toList → u = ⟨title, fileStem ++ ".ts", List.range endpoints.length⟩ →
      u.place = [] := by
    rintro flat rfl
    rw [OutputUnit.place, directory_append (by decide), directory_flat flat]
    rfl
  have tagged : mode = .tags → u.place = [] := by
    rintro rfl
    obtain ⟨called, path⟩ := tag_unit h
    rw [OutputUnit.place, path, directory_append (by decide), directory_flat called.flat]
    rfl
  rcases top with tags | ⟨unsplit, flat⟩
  · exact tagged tags
  · rcases OutputMode.splitsModels_eq_false_iff.mp unsplit with rfl | rfl | tags
    · exact whole flat (List.mem_singleton.mp h)
    · exact whole flat (List.mem_singleton.mp h)
    · exact tagged tags

end

theorem Target.fileStem_flat {t : Target} (flat : ∀ name, t.fileName = some name → '/' ∉ name.toList)
    (title : String) : '/' ∉ (t.fileStem title).toList := by
  unfold Target.fileStem
  cases given : t.fileName with
  | none => exact stem_flat title
  | some name => exact flat name given

/-- Where the configured modules of the user's own functions are found. A client imports each of them
by the specifier of the configuration, which is written for the output directory, so it finds the
module just when the client lies in that directory. -/
theorem CommandLine.registry_run_custom_imports {doc : Document} {target : Target}
    {report : Report} (h : registry.run doc target = .ok report) (client : target.client ≠ "zod") :
    ∃ (r : Run) (renderings : List Rendering), (r.Starts registry doc ∧ r.target = target ∧
        List.Forall₂ r.Renders r.units renderings ∧
        report.files = (r.pages renderings).map (Page.write r)) ∧
      (∀ c ∈ renderings, ∀ m, r.Employs c.unit m →
        Imports (Page.imports r (.client c)) m.path m.name ∧
        (IsRelative m.path → ".." ∉ c.unit.place → (c.unit.Reaches m.path ↔ c.unit.place = []))) ∧
      (target.mode.splitsModels = true → ∀ c ∈ renderings, ∀ m, r.Employs c.unit m →
        IsRelative m.path → ¬ c.unit.Reaches m.path) ∧
      ((target.mode = .tags ∨ target.mode.splitsModels = false ∧
          ∀ name, target.fileName = some name → '/' ∉ name.toList) →
        ∀ c ∈ renderings, ∀ m, r.Employs c.unit m → IsRelative m.path → c.unit.Reaches m.path) := by
  obtain ⟨r, renderings, starts, rfl, renders, files⟩ := run_pages h
  have custom := registry_custom starts.backend client
  have planned : ∀ c ∈ renderings, c.unit ∈ r.units := by
    intro c rendering
    obtain ⟨u, unit, rendered⟩ := Outcome.mem_of_forall₂ renders rendering
    rwa [rendered.unit]
  refine ⟨r, renderings, ⟨starts, rfl, renders, files⟩, ?_, ?_, ?_⟩
  · intro c _ m employs
    exact ⟨Run.imports_employed custom employs, fun _ inside => OutputUnit.reaches_iff inside _⟩
  · intro splits c rendering m _ _ reaches
    obtain ⟨below, inside⟩ := unit_place_split starts.named splits (planned c rendering)
    exact below ((OutputUnit.reaches_iff inside _).mp reaches)
  · intro top c rendering m _ _
    have place : c.unit.place = [] := by
      refine unit_place_top ?_ (planned c rendering)
      exact top.imp_right fun flat => ⟨flat.1, Target.fileStem_flat flat.2 _⟩
    rw [OutputUnit.Reaches, place]

def sentTarget : Target where
  mode := .operations
  mutator := some { path := "./send", name := "send" }

def sentRun (e : Endpoint) : Run :=
  ⟨Client.fetch, TypeScript.emitter, ⟨indexed, ⟨[]⟩⟩, sentTarget, [e]⟩

theorem sent_endpoints : ∃ e, buildEndpoints ⟨indexed, ⟨[]⟩⟩ sentTarget = .ok [e] ∧
    e.name.camel = "listEntries" ∧ e.mutator = some { path := "./send", name := "send" } :=
  ⟨_, rfl, by decide, rfl⟩

theorem CommandLine.registry_run_custom_imports_indexed :
    ∃ (report : Report) (r : Run) (c : Rendering), registry.run indexed sentTarget = .ok report ∧
      sentTarget.client ≠ "zod" ∧ c.unit = ⟨"listEntries", "endpoints/listEntries.ts", [0]⟩ ∧
      Page.write r (.client c) ∈ report.files ∧
      Imports (Page.imports r (.client c)) "./send" "send" ∧ ¬ c.unit.Reaches "./send" := by
  obtain ⟨e, built, named, sent⟩ := sent_endpoints
  have unit : (sentRun e).units = [⟨"listEntries", "endpoints/listEntries.ts", [0]⟩] := by
    have group : (sentRun e).units = [⟨e.name.camel, "endpoints/" ++ e.name.camel ++ ".ts", [0]⟩] :=
      rfl
    rw [group, named]
    rfl
  have starts : (sentRun e).Starts registry indexed :=
    { backend := rfl, emitter := rfl, resolved := rfl, endpoints := built,
      distinct := by rw [unit]; rfl }
  have client : sentTarget.client ≠ "zod" := by decide
  have run := Run.run_eq_ok.mpr ⟨_, starts, rfl, rfl⟩
  obtain ⟨r, renderings, ⟨begun, target, renders, files⟩, employed, below, _⟩ :=
    registry_run_custom_imports run client
  cases begun.unique starts target
  rw [unit] at renders
  obtain ⟨c, rendering, rendered⟩ := Outcome.mem_of_forall₂ renders.flip (List.mem_singleton_self _)
  have own : c.unit = ⟨"listEntries", "endpoints/listEntries.ts", [0]⟩ := rendered.unit
  have employs : (sentRun e).Employs c.unit { path := "./send", name := "send" } := by
    rw [own]
    exact .inl ⟨e, List.mem_singleton_self _, sent⟩
  have relative : IsRelative "./send" := .inl (by decide)
  refine ⟨_, _, c, run, client, own, ?_, (employed c rendering _ employs).1,
    below rfl c rendering _ employs relative⟩
  rw [files]
  exact List.mem_map_of_mem (List.mem_append_right _ (List.mem_map_of_mem rendering))

end TypedClients
