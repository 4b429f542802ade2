import TypedClients.Proofs.MergedFiles
import TypedClients.Proofs.Pages

namespace TypedClients

open Zod (modelName)

namespace TypeScript

/-- The text declares a type of that name, after a comment. -/
def Declares (text name : String) : Prop :=
  ∃ description rest,
    text = descriptionComment description ++ ("export interface " ++ name ++ " \x7b" ++ rest) ∨
      text = descriptionComment description ++ ("export type " ++ name ++ " = " ++ rest)

theorem typeLine_declares (description : Option String) (name target : String) :
    Declares (descriptionComment description ++ typeLine name target) name := by
  have line : typeLine name target = "export type " ++ name ++ " = " ++ (target ++ ";") :=
    String.append_assoc
  rw [line]
  exact ⟨description, _, .inr rfl⟩

theorem declarationBody_object (name : String) (fields : List FieldDecl) (extra : Option TypeExpr) :
    ∃ rest, declarationBody name (.object fields extra) =
      "export interface " ++ name ++ " \x7b" ++ rest := by
  have opening : " \x7b\n" = " \x7b" ++ "\n" := rfl
  unfold declarationBody
  simp only [opening, String.append_assoc]
  exact ⟨_, rfl⟩

theorem declaration_declares (m : Model) : Declares (declaration m) m.name.pascal := by
  unfold declaration
  cases m.body with
  | object fields extra =>
    obtain ⟨rest, body⟩ := declarationBody_object m.name.pascal fields extra
    rw [body]
    exact ⟨m.description, rest, .inl rfl⟩
  | enumeration values nullable => exact typeLine_declares _ _ _
  | union variants discriminator => exact typeLine_declares _ _ _
  | «alias» target => exact typeLine_declares _ _ _

theorem modelEntry_declares (c : ModelContext) (n : String) (s : SchemaRef) :
    Declares (modelEntry c n s).declaration (modelEntry c n s).name :=
  declaration_declares (Model.ofSchema n s)

end TypeScript

namespace Run

variable {r : Run}

def Declares (r : Run) (n : String) (e : ModelEntry) : Prop :=
  r.Emits n e ∧ e.name = modelName n ∧ TypeScript.Declares e.declaration e.name

theorem entries_declare (typescript : r.emitter = TypeScript.emitter) :
    List.Forall₂ r.Declares r.reachable r.entries := by
  have clean : (emitModels r.emitter r.modelContext r.reachable).2 = [] := by
    apply emitModels_total
    intro n s _
    rw [typescript]
    exact ⟨_, rfl⟩
  have emitted := emitModels_forall₂ (fun n mem => r.reachable_stored mem) clean
  refine emitted.imp fun n e given => ?_
  obtain ⟨s, found, run⟩ := given
  refine ⟨⟨s, found, run⟩, ?_⟩
  rw [typescript] at run
  cases run
  obtain ⟨name, _⟩ := TypeScript.emitter_faithful.emit r.modelContext n s _ rfl
  exact ⟨name, TypeScript.modelEntry_declares r.modelContext n s⟩

end Run

/-- When two declared types have one name. The names of schemas are not compared after they have
been made into the names of types. -/
theorem CommandLine.registry_run_type_names {doc : Document} {target : Target} {report : Report}
    (h : registry.run doc target = .ok report) (typescript : target.models = .typescript) :
    ∃ r : Run, (r.Starts registry doc ∧ r.target = target ∧ report = r.report) ∧
      (∀ f ∈ r.state.modelFiles,
        let models := r.modelContext.merged r.reachable f.path
        List.Forall₂ r.Declares models f.entries ∧
        ((f.entries.map ModelEntry.name).Nodup ↔
          ∀ m ∈ models, ∀ n ∈ models, modelName m = modelName n → m = n)) ∧
      ((r.entries.map ModelEntry.name).Nodup ↔
        ∀ m ∈ r.reachable, ∀ n ∈ r.reachable, modelName m = modelName n → m = n) := by
  obtain ⟨r, starts, rfl, rfl⟩ := Run.run_eq_ok.mp h
  have emitter : r.emitter = TypeScript.emitter := by
    have found := starts.emitter
    rw [typescript] at found
    exact Except.ok.inj (found.symm.trans rfl)
  have declared := Run.entries_declare emitter
  have increasing : r.reachable.Pairwise (· < ·) := Arena.reachable_increasing _ _
  have named : ∀ n e, r.Declares n e → e.name = modelName n := fun n e given => given.2.1
  refine ⟨r, ⟨starts, rfl, rfl⟩, fun f file => ?_, ?_⟩
  · have models : List.Forall₂ r.Declares (r.modelContext.merged r.reachable f.path) f.entries := by
      refine ModelContext.merged_entries declared (fun n e given => ⟨named n e given, ?_⟩) file
      obtain ⟨⟨s, found, run⟩, _⟩ := given
      rw [emitter] at run
      exact (TypeScript.emitter_faithful.emit _ _ _ _ run).2.1
    refine ⟨models, ?_⟩
    rw [names_of_forall₂ models named]
    exact List.nodup_map_iff_inj_on (ModelContext.merged_nodup increasing)
  · have distinct : r.reachable.Nodup := increasing.imp String.ne_of_lt
    rw [names_of_forall₂ declared named]
    exact List.nodup_map_iff_inj_on distinct

def twins : Document :=
  { zoo with components := some { schemas := [("model", .item {}),
      ("Model", .item (holder "part" "#/components/schemas/model"))] } }

def twinsResolved : Resolved :=
  ⟨{ zoo with components := some {} },
    ⟨[("model", .item {}), ("Model", .item (holder "part" "#/components/schemas/model"))]⟩⟩

theorem twins_part : Pointer.schemaName? "#/components/schemas/model" = some "model" := by decide

theorem twins_resolve : twins.resolve = .ok twinsResolved :=
  Document.resolve_holder (Document.zoo_paths_of_declared rfl rfl) rfl rfl twins_part (by decide)

def twinsRun (e : Endpoint) : Run := ⟨Client.fetch, TypeScript.emitter, twinsResolved, {}, [e]⟩

theorem twinsRun_reachable {e : Endpoint}
    (root : e.schemaRoots = [.ref "#/components/schemas/Model"]) :
    "Model" ∈ (twinsRun e).reachable ∧ "model" ∈ (twinsRun e).reachable := by
  have closed := twinsResolved.arena.reachable_closed ((twinsRun e).endpoints.flatMap
    Endpoint.schemaRoots)
  have outer : "Model" ∈ (twinsRun e).reachable := by
    refine closed.roots (.ref "#/components/schemas/Model") ?_ "Model" (by decide) ?_
    · show _ ∈ [e].flatMap Endpoint.schemaRoots
      simp [root]
    · exact .reference (.here _) Document.zoo_model
  have part : SchemaRef.Mentions (.item (holder "part" "#/components/schemas/model"))
      "#/components/schemas/model" := .inside (holder_holds.mpr rfl) (.here _)
  exact ⟨outer, closed.members "Model" outer _ rfl "model" (by decide)
    (.reference part twins_part)⟩

theorem CommandLine.registry_run_type_names_twins : ∃ (report : Report) (r : Run) (f : ModelFile),
    registry.run twins {} = .ok report ∧ report = r.report ∧ report.errors = [] ∧
      "Model" ∈ r.reachable ∧ "model" ∈ r.reachable ∧ f ∈ r.state.modelFiles ∧
      ¬ (f.entries.map ModelEntry.name).Nodup := by
  have endpoints : ∃ e, buildEndpoints twinsResolved {} = .ok [e] ∧
      e.schemaRoots = [.ref "#/components/schemas/Model"] ∧ _ :=
    zoo_endpoints_of_paths rfl .single
  obtain ⟨e, built, root, _⟩ := endpoints
  have starts : (twinsRun e).Starts registry twins :=
    { backend := rfl, emitter := rfl, resolved := twins_resolve, endpoints := built,
      distinct := rfl }
  have total : (twinsRun e).Total :=
    { emit := fun _ _ _ => ⟨_, rfl⟩, header := fun _ => ⟨_, rfl⟩,
      client := fun _ _ _ => ⟨_, _, rfl⟩, footer := fun _ _ => ⟨_, rfl⟩ }
  have run := Run.run_eq_ok.mpr ⟨_, starts, rfl, rfl⟩
  obtain ⟨r, ⟨begun, target, _⟩, files, _⟩ := registry_run_type_names run rfl
  cases begun.unique starts target
  obtain ⟨outer, inner⟩ := twinsRun_reachable root
  have declared : List.Forall₂ (twinsRun e).Declares (twinsRun e).reachable (twinsRun e).entries :=
    Run.entries_declare rfl
  obtain ⟨d, listed, ⟨s, _, made⟩, _⟩ := Outcome.mem_of_forall₂ declared.flip outer
  obtain ⟨f, file, own⟩ := ModelFile.mem_of_assemble listed
  have one_path : ∀ n, Text.lower ((twinsRun e).modelContext.path n) = Text.lower f.path := by
    intro n
    have place := (TypeScript.emitter_faithful.emit _ _ _ _ made).2.1
    have path : (twinsRun e).modelContext.path n = d.path := place.symm
    rw [path]
    exact ((ModelFile.mem_entries file).mp own).2
  refine ⟨_, _, f, run, rfl, total.report_errors, outer, inner, file, ?_⟩
  rw [(files f file).2]
  intro distinct
  have names : modelName "Model" = modelName "model" := by decide +kernel
  have same := distinct "Model" (ModelContext.mem_merged.mpr ⟨outer, one_path _⟩) "model"
    (ModelContext.mem_merged.mpr ⟨inner, one_path _⟩) names
  revert same
  decide

end TypedClients
