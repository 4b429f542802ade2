import TypedClients.Proofs.Pages
import TypedClients.Proofs.Writes

namespace TypedClients.CommandLine

def report? (doc : Document) (t : Target) : Option Report := (registry.run doc t).toOption

def succeeding (doc : Document) (targets : List Target) : List Target :=
  targets.filter fun t => (report? doc t).isSome

def targetWrites (doc : Document) (t : Target) : List Write :=
  (report? doc t).elim [] fun r => r.files.map (Disk.fileWrite t.output) ++
    r.indexes.map (Disk.indexWrite t.output t.incrementalIndex)

def workspaceWrites (workspace : Option String) (targets : List Target) : List Write :=
  match workspace with
  | none => []
  | some w => if targets.isEmpty then [] else [Disk.indexWrite w true (workspaceIndex w targets)]

def runWrites (doc : Document) (workspace : Option String) (targets : List Target) : List Write :=
  targets.flatMap (targetWrites doc) ++ workspaceWrites workspace (succeeding doc targets)

/-- The indexes of the targets, and then the index of the workspace. -/
def runIndexes (doc : Document) (workspace : Option String) (targets : List Target) :
    List IndexFile :=
  targets.flatMap (fun t => (report? doc t).elim [] (·.indexes)) ++
    workspace.toList.map fun w => workspaceIndex w (succeeding doc targets)

theorem targetWrites_flat {doc : Document} {t : Target}
    (flat : ∀ index ∈ (report? doc t).elim [] (·.indexes), ∀ line ∈ index.lines,
      '\n' ∉ line.toList) :
    ∀ w ∈ targetWrites doc t, w.edit.Flat := by
  intro w mem
  unfold targetWrites at mem
  cases produced : report? doc t with
  | none =>
    rw [produced] at mem
    cases mem
  | some r =>
    rw [produced] at mem flat
    rcases List.mem_append.mp mem with file | index
    · obtain ⟨f, _, rfl⟩ := List.mem_map.mp file
      trivial
    · obtain ⟨i, listed, rfl⟩ := List.mem_map.mp index
      exact Disk.indexWrite_flat (flat i listed) _ _

theorem runWrites_flat {doc : Document} {workspace : Option String} {targets : List Target}
    (flat : ∀ index ∈ runIndexes doc workspace targets, ∀ line ∈ index.lines, '\n' ∉ line.toList) :
    ∀ w ∈ runWrites doc workspace targets, w.edit.Flat := by
  intro w mem
  rcases List.mem_append.mp mem with own | shared
  · obtain ⟨t, selected, written⟩ := List.mem_flatMap.mp own
    apply targetWrites_flat (fun index listed => flat index ?_) w written
    exact List.mem_append_left _ (List.mem_flatMap.mpr ⟨t, selected, listed⟩)
  · cases workspace with
    | none => cases shared
    | some directory =>
      rw [workspaceWrites] at shared
      split at shared
      · cases shared
      · have same := List.mem_singleton.mp shared
        subst same
        apply Disk.indexWrite_flat
        exact flat _ (List.mem_append_right _ (List.mem_singleton_self _))

variable {κ : Type} [DecidableEq κ] (place : String → κ)

theorem runTarget_performs (doc : Document) (t : Target) :
    ∃ result, isOk result = (report? doc t).isSome ∧
      Performs place (runTarget (.ofPlaces place) doc t) result (targetWrites doc t) := by
  unfold runTarget targetWrites report?
  cases registry.run doc t with
  | error e => exact ⟨_, rfl, .pure _⟩
  | ok r =>
    refine ⟨.ok r, rfl, ?_⟩
    exact (Disk.writeFiles_performs place t.output r.files).bind
      ((Disk.writeIndexes_performs place t.output t.incrementalIndex r.indexes).bind_pure rfl)

theorem runTargets_performs (doc : Document) (targets : List Target) :
    ∃ results, (results.filter fun (_, r) => isOk r).map Prod.fst = succeeding doc targets ∧
      Performs place (runTargets (.ofPlaces place) doc targets) results
        (targets.flatMap (targetWrites doc)) := by
  induction targets with
  | nil => exact ⟨[], rfl, .pure _⟩
  | cons t rest ih =>
    obtain ⟨result, ok, run⟩ := runTarget_performs place doc t
    obtain ⟨results, kept, others⟩ := ih
    refine ⟨(t, result) :: results, ?_, ?_⟩
    · unfold succeeding at kept ⊢
      rw [List.filter_cons, List.filter_cons, ← ok, ← kept]
      dsimp only
      split
      · rfl
      · rfl
    · exact run.bind (others.bind_pure rfl)

theorem writeWorkspace_performs (workspace : Option String) (targets : List Target) :
    Performs place (writeWorkspace (.ofPlaces place) workspace targets) (.ok ())
      (workspaceWrites workspace targets) := by
  unfold writeWorkspace workspaceWrites
  cases workspace with
  | none => exact .pure _
  | some w =>
    dsimp only
    split
    · exact .pure _
    · exact (Disk.writeIndex_performs place w (workspaceIndex w targets) true).bind_pure rfl

theorem generateTargets_performs (doc : Document) (workspace : Option String)
    (targets : List Target) :
    ∃ outcome, Performs place (generateTargets (.ofPlaces place) doc workspace targets) outcome
      (runWrites doc workspace targets) := by
  obtain ⟨results, kept, run⟩ := runTargets_performs place doc targets
  have shared := writeWorkspace_performs place workspace (succeeding doc targets)
  unfold generateTargets runWrites
  -- Failures are only counted after the last write, so either count will do.
  refine Exists.imp (fun _ last => run.bind last) ?_
  dsimp only
  rw [kept]
  exact ⟨_, shared.bind_pure (apply_ite Pure.pure _ _ _).symm⟩

/-- A run writes what it has planned, and nothing changes when it is repeated, whatever was there
before the first time. -/
theorem generateTargets_rerun (doc : Document) (workspace : Option String)
    (targets : List Target) (files : κ → Option String)
    (flat : ∀ index ∈ runIndexes doc workspace targets, ∀ line ∈ index.lines, '\n' ∉ line.toList) :
    let run := generateTargets (.ofPlaces place) doc workspace targets
    (run files).2 = Write.applyAll place (runWrites doc workspace targets) files ∧
      run (run files).2 = run files := by
  obtain ⟨outcome, performs⟩ := generateTargets_performs place doc workspace targets
  intro run
  have once : ∀ files, run files =
      (outcome, Write.applyAll place (runWrites doc workspace targets) files) := performs
  refine ⟨congrArg Prod.snd (once files), ?_⟩
  rw [once, once, Write.applyAll_twice place (runWrites_flat flat)]

def zooGrowing : Target := { zooTarget with incrementalIndex := true }

theorem zooGrowing_indexes : ∃ report, registry.run zoo zooGrowing = .ok report ∧
    ∀ index ∈ report.indexes, ∀ line ∈ index.lines, '\n' ∉ line.toList := by
  obtain ⟨e, built, _, tags, _⟩ := zoo_endpoints
  let r : Run := { zooRun e with target := zooGrowing }
  have units : r.units = [⟨"moDel", "moDel/moDel.ts", [0]⟩] := zooRun_units tags
  have starts : r.Starts registry zoo := {
    backend := rfl
    emitter := rfl
    resolved := Document.zoo_resolve
    endpoints := built
    distinct := by
      rw [units]
      rfl }
  have total : r.Total := {
    emit := (zooRun_total e).emit
    header := (zooRun_total e).header
    client := (zooRun_total e).client
    footer := (zooRun_total e).footer }
  obtain ⟨emits, _⟩ := Run.report_clean total.report_errors
  refine ⟨r.report, Run.run_eq_ok.mpr ⟨r, starts, rfl, rfl⟩, Run.report_indexes_flat ?_⟩
  rintro path (rfl | ⟨u, unit, rfl⟩ | ⟨entry, listed, rfl⟩)
  · decide
  · rw [units] at unit
    cases List.mem_singleton.mp unit
    decide
  · obtain ⟨n, reached, s, _, run⟩ := Outcome.mem_of_forall₂ emits listed
    have at_path : entry.path = modelPath .tagsSplit r.fileStem n := by
      cases Except.ok.inj run
      rfl
    have known : n ∈ ["Model", "Pet"] := (Arena.reachable_closed _ _).stored n reached
    rcases List.mem_cons.mp known with rfl | known
    · rw [at_path, zoo_path_model]
      decide
    · rw [at_path, List.mem_singleton.mp known, zoo_path_pet]
      decide

/-- A line of the user's own, in the index of the target and of the workspace. -/
def legacyFiles : String → Option String :=
  Function.update (fun _ => none) "src/generated/index.ts" (some "export * from './legacy';")

theorem generateTargets_rerun_zoo :
    let run := generateTargets (.ofPlaces id) zoo (some "src/generated") [zooGrowing]
    (∀ index ∈ runIndexes zoo (some "src/generated") [zooGrowing], ∀ line ∈ index.lines,
      '\n' ∉ line.toList) ∧
    (run legacyFiles).2 =
      Write.applyAll id (runWrites zoo (some "src/generated") [zooGrowing]) legacyFiles ∧
    run (run legacyFiles).2 = run legacyFiles := by
  obtain ⟨report, run, flat⟩ := zooGrowing_indexes
  have produced : report? zoo zooGrowing = some report := by
    unfold report?
    rw [run]
    rfl
  have lines : ∀ index ∈ runIndexes zoo (some "src/generated") [zooGrowing],
      ∀ line ∈ index.lines, '\n' ∉ line.toList := by
    intro index mem
    rcases List.mem_append.mp mem with own | shared
    · rw [List.flatMap_singleton, produced] at own
      exact flat index own
    · have same := List.mem_singleton.mp shared
      have kept : succeeding zoo [zooGrowing] = [zooGrowing] := by
        simp [succeeding, produced]
      rw [same, kept]
      intro line mem
      rw [List.mem_singleton.mp mem]
      exact exportLine_flat (by decide)
  exact ⟨lines, generateTargets_rerun id zoo (some "src/generated") [zooGrowing] legacyFiles lines⟩

end TypedClients.CommandLine
