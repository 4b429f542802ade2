import TypedClients.Proofs.Isolation
import TypedClients.Proofs.Lines
import TypedClients.Proofs.MergedFiles
import TypedClients.Proofs.Pages
import TypedClients.Proofs.Success

namespace TypedClients

/-- Nothing is cut off from the end of the text. -/
def Solid (s : String) : Prop := ∃ c, s.toList.getLast? = some c ∧ Text.isBlank c = false

/-- The marks stand in the text, one behind the other. -/
def Carries : List String → String → Prop
  | [], _ => True
  | c :: rest, s => ∃ before after, s = before ++ c ++ after ∧ Carries rest after

namespace Carries

variable {cs ds : List String} {c s t : String}

theorem unmarked (s : String) : Carries [] s := trivial

theorem behind (front : String) (h : Carries cs s) : Carries cs (front ++ s) := by
  cases cs with
  | nil => trivial
  | cons c rest =>
    obtain ⟨before, after, rfl, later⟩ := h
    exact ⟨front ++ before, after, by simp only [String.append_assoc], later⟩

theorem append (first : Carries cs s) (second : Carries ds t) : Carries (cs ++ ds) (s ++ t) := by
  induction cs generalizing s with
  | nil => exact second.behind s
  | cons c rest ih =>
    obtain ⟨before, after, rfl, later⟩ := first
    exact ⟨before, after ++ t, String.append_assoc, ih later⟩

theorem before (h : Carries cs s) (back : String) : Carries cs (s ++ back) := by
  have nothing : Carries [] back := trivial
  have both := h.append nothing
  rwa [List.append_nil] at both

theorem join {css : List (List String)} {xs : List String} (h : List.Forall₂ Carries css xs)
    (separator : String) : Carries css.flatten (Text.join separator xs) := by
  unfold Text.join
  induction h with
  | nil => trivial
  | cons first rest ih =>
    cases rest with
    | nil =>
      rw [String.intercalate_singleton, List.flatten_singleton]
      exact first
    | cons second others =>
      rw [String.intercalate_cons_cons, List.flatten_cons]
      exact (first.before separator).append ih

theorem trimEndBlanks (solid : ∀ c ∈ cs, Solid c) (h : Carries cs s) :
    Carries cs (Text.trimEndBlanks s) := by
  induction cs generalizing s with
  | nil => trivial
  | cons c rest ih =>
    obtain ⟨before, after, rfl, later⟩ := h
    have later := ih (fun d mem => solid d (List.mem_cons_of_mem _ mem)) later
    obtain ⟨d, last, letter⟩ := solid c List.mem_cons_self
    refine ⟨before, Text.trimEndBlanks after, ?_, later⟩
    apply String.toList_injective
    unfold Text.trimEndBlanks
    simp only [String.toList_append, String.toList_ofList]
    apply Text.trimEnd_append
    intro e ends
    rw [List.getLast?_append, last] at ends
    cases Option.some.inj ends
    exact letter

theorem filled (solid : ∀ c ∈ cs, Solid c) (h : Carries cs "") : cs = [] := by
  cases cs with
  | nil => rfl
  | cons c rest =>
    obtain ⟨before, after, none, _⟩ := h
    obtain ⟨d, last, _⟩ := solid c List.mem_cons_self
    have letters := congrArg String.toList none
    simp only [String.toList_append, String.toList_empty, List.nil_eq, List.append_eq_nil_iff]
      at letters
    rw [letters.1.2] at last
    cases last

theorem filter {css : List (List String)} {xs : List String} (h : List.Forall₂ Carries css xs)
    (solid : ∀ cs ∈ css, ∀ c ∈ cs, Solid c) :
    ∃ kept, kept.flatten = css.flatten ∧ List.Forall₂ Carries kept (xs.filter (· != "")) := by
  induction h with
  | nil => exact ⟨[], rfl, .nil⟩
  | @cons cs x css xs first _ ih =>
    obtain ⟨kept, same, carries⟩ := ih fun ds mem => solid ds (List.mem_cons_of_mem _ mem)
    by_cases empty : x = ""
    · subst empty
      have nothing := first.filled (solid cs List.mem_cons_self)
      exact ⟨kept, by rw [same, nothing, List.flatten_cons, List.nil_append], carries⟩
    · refine ⟨cs :: kept, by rw [List.flatten_cons, same, List.flatten_cons], ?_⟩
      rw [List.filter_cons_of_pos (by simpa using empty)]
      exact .cons first carries

theorem nothing (xs : List String) : List.Forall₂ Carries (xs.map fun _ => []) xs := by
  rw [List.forall₂_map_left_iff]
  exact List.forall₂_same.mpr fun _ _ => trivial

theorem among {css : List (List String)} {xs : List String} (h : List.Forall₂ Carries css xs)
    (front back : List String) (separator : String) :
    Carries css.flatten (Text.join separator (front ++ xs ++ back)) := by
  have all := join (List.rel_append (List.rel_append (nothing front) h) (nothing back)) separator
  have none : ∀ xs : List String, (xs.map fun _ => ([] : List String)).flatten = [] := by simp
  rwa [List.flatten_append, List.flatten_append, none, none, List.nil_append,
    List.append_nil] at all

end Carries

theorem trimmed_carry {css : List (List String)} {xs : List String}
    (h : List.Forall₂ Carries css xs) (solid : ∀ cs ∈ css, ∀ c ∈ cs, Solid c) :
    List.Forall₂ Carries css (xs.map Text.trimEndBlanks) := by
  induction h with
  | nil => exact .nil
  | @cons cs x css xs first _ ih =>
    exact .cons (first.trimEndBlanks (solid cs List.mem_cons_self))
      (ih fun ds mem => solid ds (List.mem_cons_of_mem _ mem))

/-- A page begins with the banner and carries the marks of its sections. -/
theorem writePage_carries {css : List (List String)} {sections : List String}
    (h : List.Forall₂ Carries css sections) (solid : ∀ cs ∈ css, ∀ c ∈ cs, Solid c)
    (banner : String) (imports : List String) :
    ∃ rest, writePage banner imports sections = banner ++ rest ∧ Carries css.flatten rest := by
  obtain ⟨kept, same, carries⟩ := Carries.filter (trimmed_carry h solid) solid
  unfold writePage
  dsimp only
  generalize (if imports.isEmpty then [] else [Text.join "\n" imports]) = top
  have body := Carries.among carries top [] "\n\n"
  rw [List.append_nil, same] at body
  rw [List.cons_append]
  generalize top ++ (sections.map Text.trimEndBlanks).filter (· != "") = parts at body ⊢
  cases parts with
  | nil => exact ⟨"\n", rfl, body.before "\n"⟩
  | cons first others =>
    refine ⟨"\n\n" ++ Text.join "\n\n" (first :: others) ++ "\n", ?_, (body.behind _).before _⟩
    unfold Text.join
    rw [String.intercalate_cons_cons, String.append_assoc, String.append_assoc,
      String.append_assoc]

theorem ModelEntry.text_carries {cs : List String} {e : ModelEntry}
    (solid : ∀ c ∈ cs, Solid c) (h : Carries cs e.declaration) : Carries cs e.text := by
  have last : List.Forall₂ Carries [cs] [Text.trimEndBlanks e.declaration] :=
    .cons (h.trimEndBlanks solid) .nil
  have text := Carries.among last e.constants [] "\n"
  rwa [List.flatten_singleton, List.append_nil] at text

theorem forall₂_filterMap {α β : Type} {R : α → β → Prop} {f : α → Option β} {as : List α}
    (h : ∀ a ∈ as, ∃ b, f a = some b ∧ R a b) : List.Forall₂ R as (as.filterMap f) := by
  induction as with
  | nil => exact .nil
  | cons a rest ih =>
    obtain ⟨b, first, related⟩ := h a List.mem_cons_self
    rw [List.filterMap_cons, first]
    exact .cons related (ih fun c mem => h c (List.mem_cons_of_mem _ mem))

structure Place where
  path : String
  unit : Option OutputUnit

namespace Run

def places (r : Run) : List Place :=
  ((r.state.modelFiles.filter fun f => !r.state.isEmbedded f).map fun f => ⟨f.path, none⟩) ++
    r.units.map fun u => ⟨u.path, some u⟩

def gather {α : Type} (r : Run) (models : String → List α) (operations : OutputUnit → List α)
    (p : Place) : List α :=
  (r.modelContext.merged r.reachable p.path).flatMap models ++ p.unit.elim [] operations

def fileMarks (r : Run) (marks : String → List String) (path : String) : List String :=
  (r.modelContext.merged r.reachable path).flatMap marks

def UnitCarries (r : Run) (u : OutputUnit) (marks : List String) : Prop :=
  ∀ c, r.Renders u c → r.backend.footer (r.unitContext u) (r.deferred u) = .ok c.footer →
    ∃ first css last, marks = first ++ css.flatten ++ last ∧ Carries first c.header ∧
      List.Forall₂ Carries css (c.texts.map (·.implementation)) ∧ Carries last c.footer

structure ModelsCarry (r : Run) (marks : String → List String) : Prop where
  text : ∀ n e, r.Emits n e → Carries (marks n) e.text
  solid : ∀ n, ∀ m ∈ marks n, Solid m

variable {r : Run} {doc : Document} {u : OutputUnit} {f : ModelFile}
  {marks : String → List String}

theorem ModelsCarry.file (h : r.ModelsCarry marks) {path m : String}
    (mem : m ∈ r.fileMarks marks path) : Solid m := by
  obtain ⟨n, _, own⟩ := List.mem_flatMap.mp mem
  exact h.solid n m own

theorem ModelsCarry.body (h : r.ModelsCarry marks) (starts : r.Starts CommandLine.registry doc)
    (file : f ∈ r.state.modelFiles) : Carries (r.fileMarks marks f.path) f.body := by
  obtain ⟨entries, _⟩ := Run.report_clean starts.clean
  have placed : ∀ n e, r.Emits n e → e.name = Zod.modelName n ∧ e.path = r.modelContext.path n := by
    rintro n e ⟨s, _, run⟩
    obtain ⟨name, path, _⟩ :=
      (CommandLine.registry_emitter_faithful starts.emitter).emit _ _ _ _ run
    exact ⟨name, path⟩
  have own := ModelContext.merged_entries entries placed file
  unfold fileMarks ModelFile.body
  rw [List.flatMap_def]
  apply Carries.join
  rw [List.forall₂_map_left_iff, List.forall₂_map_right_iff]
  exact own.imp fun n e given => h.text n e given

theorem fileMarks_unit (starts : r.Starts CommandLine.registry doc) (marks : String → List String)
    (u : OutputUnit) :
    match r.state.embedded? u with
    | some f => f ∈ r.state.modelFiles ∧ r.fileMarks marks u.path = r.fileMarks marks f.path
    | none => r.fileMarks marks u.path = [] := by
  cases taken : r.state.embedded? u with
  | some f =>
    obtain ⟨file, same⟩ := embedded_iff.mp taken
    refine ⟨file, ?_⟩
    unfold fileMarks ModelContext.merged
    rw [same]
  | none =>
    obtain ⟨entries, _⟩ := Run.report_clean starts.clean
    unfold fileMarks
    rw [List.flatMap_eq_nil_iff]
    intro n mem
    obtain ⟨reached, path⟩ := ModelContext.mem_merged.mp mem
    obtain ⟨e, emitted, s, _, run⟩ := Outcome.mem_of_forall₂ entries.flip reached
    obtain ⟨f, file, own⟩ := ModelFile.mem_of_assemble emitted
    obtain ⟨_, place, _⟩ := (CommandLine.registry_emitter_faithful starts.emitter).emit _ _ _ _ run
    have here : r.state.embedded? u = some f := by
      have same := ((ModelFile.mem_entries file).mp own).2
      rw [place] at same
      exact embedded_iff.mpr ⟨file, path.symm.trans same⟩
    rw [taken] at here
    cases here

theorem clientPage_carries (models : r.ModelsCarry marks)
    (starts : r.Starts CommandLine.registry doc) {own : List String} {c : Rendering}
    (solid : ∀ m ∈ own, Solid m) (carries : r.UnitCarries u own) (renders : r.Renders u c)
    (closed : r.backend.footer (r.unitContext u) (r.deferred u) = .ok c.footer) : ∃ rest,
      (r.clientPage c).content = r.state.banner ++ rest ∧
        Carries (r.fileMarks marks u.path ++ own) rest := by
  obtain ⟨first, css, last, rfl, header, body, footer⟩ := carries c renders closed
  obtain ⟨front, declared, embedded⟩ : ∃ front : List (List String),
      front.flatten = r.fileMarks marks u.path ∧
        List.Forall₂ Carries front ((r.state.embedded? u).map ModelFile.body).toList := by
    have declared := r.fileMarks_unit starts marks u
    cases taken : r.state.embedded? u with
    | none =>
      rw [taken] at declared
      exact ⟨[], declared.symm, .nil⟩
    | some f =>
      rw [taken] at declared
      obtain ⟨file, same⟩ := declared
      refine ⟨[r.fileMarks marks u.path], List.flatten_singleton, .cons ?_ .nil⟩
      rw [same]
      exact models.body starts file
  have sections := List.rel_append embedded (List.Forall₂.cons header
    (List.rel_append body (List.Forall₂.cons footer .nil)))
  have all : (front ++ first :: (css ++ [last])).flatten =
      r.fileMarks marks u.path ++ (first ++ css.flatten ++ last) := by
    simp [declared]
  have each : ∀ cs ∈ front ++ first :: (css ++ [last]), ∀ m ∈ cs, Solid m := by
    intro cs mem m mark
    have listed := List.mem_flatten.mpr ⟨cs, mem, mark⟩
    rw [all] at listed
    rcases List.mem_append.mp listed with model | operation
    · exact models.file model
    · exact solid m operation
  obtain ⟨rest, content, carried⟩ := writePage_carries sections each r.state.banner
    ((r.state.unitImports r.backend u (u.endpoints r.endpoints) c.texts).map Dependency.write)
  rw [all] at carried
  refine ⟨rest, ?_, carried⟩
  rw [← content]
  simp [clientPage, RunState.unitPage, renders.unit]

theorem UnitCarries.of_texts {own : Endpoint → List String}
    (h : ∀ e t before after, r.backend.client (r.clientContext u) e before = (.ok t, after) →
      Carries (own e) t.implementation) :
    r.UnitCarries u ((u.endpoints r.endpoints).flatMap own) := by
  intro c renders _
  refine ⟨[], (u.endpoints r.endpoints).map own, [], ?_, trivial, ?_, trivial⟩
  · rw [List.flatMap_def, List.nil_append, List.append_nil]
  · rw [List.forall₂_map_left_iff, List.forall₂_map_right_iff]
    refine renders.texts.imp fun e t given => ?_
    obtain ⟨before, after, run⟩ := given
    exact h e t before after run

theorem UnitCarries.none (r : Run) (u : OutputUnit) : r.UnitCarries u [] := by
  have nothing : r.UnitCarries u ((u.endpoints r.endpoints).flatMap fun _ => []) :=
    .of_texts fun _ _ _ _ _ => trivial
  rwa [List.flatMap_eq_nil_iff.mpr fun _ _ => rfl] at nothing

theorem alone_renders (starts : r.Starts CommandLine.registry doc) (u : OutputUnit) :
    ∃ c, r.alone u = .ok (r.clientPage c) ∧ r.Renders u c ∧
      r.backend.footer (r.unitContext u) (r.deferred u) = .ok c.footer := by
  have part : ∀ e ∈ u.endpoints r.endpoints, e ∈ r.endpoints := by
    intro e mem
    obtain ⟨i, _, numbered⟩ := List.mem_filterMap.mp mem
    exact List.mem_of_getElem? numbered
  obtain ⟨f, after, run⟩ := starts.builtIn_reliable.renderUnit u part {}
  have rendered : r.alone u = .ok f := congrArg Prod.fst run
  have steps := rendered
  rw [alone_eq] at steps
  simp only [Outcome.bind_eq_ok, Outcome.pure_eq_ok] at steps
  obtain ⟨header, opened, texts, written, footer, closed, page⟩ := steps
  have made := clientTexts_forall₂ (Prod.ext written rfl)
  refine ⟨⟨u, header, texts, footer⟩, ?_, ⟨rfl, opened, made, _, closed⟩, closed⟩
  rw [rendered, page]
  rfl

/-- If the declarations of all models and units carry marks, then so do the files. -/
theorem report_carries (models : r.ModelsCarry marks) (starts : r.Starts CommandLine.registry doc)
    {own : OutputUnit → List String} (solid : ∀ u, ∀ m ∈ own u, Solid m)
    (units : ∀ u ∈ r.units, r.UnitCarries u (own u)) :
    List.Forall₂ (fun p f => f.path = p.path ∧ ∃ rest, f.content = r.state.banner ++ rest ∧
      Carries (r.gather marks own p) rest) r.places r.report.files := by
  rw [Run.report_alone (CommandLine.registry_defersOwn starts.backend)]
  refine List.rel_append ?_ ?_
  · unfold RunState.modelPages
    rw [List.forall₂_map_left_iff, List.forall₂_map_right_iff]
    refine List.forall₂_same.mpr fun f kept => ⟨rfl, ?_⟩
    have body := models.body starts (List.mem_filter.mp kept).1
    have each : ∀ cs ∈ [r.fileMarks marks f.path], ∀ m ∈ cs, Solid m := by
      intro cs mem m mark
      rw [List.mem_singleton.mp mem] at mark
      exact models.file mark
    have page := writePage_carries (.cons body .nil) each r.state.banner
      ((mergeDependencies (r.state.modelImports f)).map Dependency.write)
    rw [List.flatten_singleton] at page
    unfold gather
    rwa [Option.elim_none, List.append_nil]
  · rw [List.forall₂_map_left_iff]
    refine forall₂_filterMap fun u unit => ?_
    obtain ⟨c, rendered, renders, closed⟩ := alone_renders starts u
    refine ⟨r.clientPage c, by rw [rendered]; rfl, ?_,
      clientPage_carries models starts (solid u) (units u unit) renders closed⟩
    show c.unit.path = _
    rw [renders.unit]

end Run

end TypedClients
