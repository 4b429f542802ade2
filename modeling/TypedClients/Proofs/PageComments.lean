import TypedClients.Proofs.Carries
import TypedClients.Proofs.Comments

namespace TypedClients

theorem EndsComment.solid {s : String} (h : EndsComment s) : Solid s := by
  obtain ⟨body, rfl⟩ := h.closed
  exact ⟨'/', by simp, by decide⟩

namespace Client

theorem paramLine_carries (p : Param) : Carries (paramNote? p).toList (paramLine p) := by
  have note : Carries (paramNote? p).toList (if (paramNotes p).isEmpty then ""
      else "  /** " ++ Text.join " " (paramNotes p) ++ " */\n") := by
    unfold paramNote?
    split
    · trivial
    · have opening : "  /** " = "  " ++ "/** " := rfl
      have close : " */\n" = " */" ++ "\n" := rfl
      refine ⟨"  ", "\n", ?_, trivial⟩
      rw [opening, close]
      simp only [String.append_assoc]
  exact (((((note.before _).before _).before _).before _).before _).before _

theorem paramsDeclaration_carries (name : String) (params : List Param) :
    Carries (params.flatMap fun p => (paramNote? p).toList) (paramsDeclaration name params) := by
  have lines : List.Forall₂ Carries (params.map fun p => (paramNote? p).toList)
      (params.map paramLine) := by
    rw [List.forall₂_map_left_iff, List.forall₂_map_right_iff]
    exact List.forall₂_same.mpr fun p _ => paramLine_carries p
  unfold paramsDeclaration
  rw [List.flatMap_def]
  exact ((Carries.join lines "").behind _).before _

theorem group_carries (name : String) (params : List Param) : ∃ css : List (List String),
    css.flatten = (params.flatMap fun p => (paramNote? p).toList) ∧
      List.Forall₂ Carries css
        ((paramGroup? name params).map fun g => paramsDeclaration g.typeName params).toList := by
  unfold paramGroup?
  cases params with
  | nil => exact ⟨[], rfl, .nil⟩
  | cons p rest =>
    exact ⟨[_], List.flatten_singleton, .cons (paramsDeclaration_carries name _) .nil⟩

theorem declarations_carry (e : Endpoint) (target : Target) : ∃ css : List (List String),
    css.flatten = typeNotes e ∧
      List.Forall₂ Carries css (Request.ofEndpoint e target).declarations := by
  obtain ⟨query, query_notes, query_carries⟩ :=
    group_carries (e.name.pascal ++ "Params") e.queryParams
  obtain ⟨headers, header_notes, header_carries⟩ :=
    group_carries (e.name.pascal ++ "Headers") e.headers
  refine ⟨query ++ headers, ?_, List.rel_append query_carries header_carries⟩
  rw [List.flatten_append, query_notes, header_notes, typeNotes, List.flatMap_append]

theorem commentLines_carry (e : Endpoint) (target : Target) :
    Carries (comment? e).toList (Request.ofEndpoint e target).commentLines := by
  unfold Request.commentLines Request.ofEndpoint
  cases comment? e with
  | none => trivial
  | some c => exact ⟨"", "\n", by simp, trivial⟩

theorem fetchFunction_carries (e : Endpoint) (target : Target) (response : String) (json : Bool) :
    Carries (comment? e).toList (fetchFunction (Request.ofEndpoint e target) response json) := by
  unfold fetchFunction
  simp only [String.append_assoc]
  exact (commentLines_carry e target).before _

theorem fetchText_carries (e : Endpoint) (target : Target) :
    Carries (notes e) (fetchText e target) := by
  obtain ⟨css, types, carries⟩ := declarations_carry e target
  have declared : Carries (typeNotes e) (Text.join ""
      ((Request.ofEndpoint e target).declarations.map (· ++ "\n\n"))) := by
    rw [← types]
    refine Carries.join ?_ ""
    rw [List.forall₂_map_right_iff]
    exact carries.imp fun cs s h => h.before _
  have function := fetchFunction_carries e target
  unfold fetchText
  refine Carries.trimEndBlanks (fun c mem => (notes_endsComment mem).solid) ?_
  exact ((((declared.before _).before _).before _).before _).append (function _ _)

theorem axiosText_carries (e : Endpoint) (target : Target) :
    Carries (comment? e).toList (axiosText e target) := by
  unfold axiosText
  refine Carries.trimEndBlanks (fun c mem =>
    (comment_endsComment (Option.mem_toList.mp mem)).solid) ?_
  simp only [String.append_assoc]
  exact (commentLines_carry e target).before _

theorem axiosDeferred_carries (e : Endpoint) (target : Target) (factory : Option String) :
    Carries (typeNotes e) (axiosDeferred e target factory) := by
  obtain ⟨css, types, carries⟩ := declarations_carry e target
  have all := Carries.among carries [] [resultType (Request.ofEndpoint e target) factory] "\n\n"
  rwa [types, List.nil_append] at all

end Client

namespace TypeScript

theorem fieldLine_carries (f : FieldDecl) : Carries (fieldNote? f).toList (fieldLine f) := by
  have note : Carries (fieldNote? f).toList (fieldComment f.description) := by
    unfold fieldNote? fieldComment
    cases nonEmpty? f.description with
    | none => trivial
    | some d =>
      have opening : "  /** " = "  " ++ "/** " := rfl
      have close : " */\n" = " */" ++ "\n" := rfl
      refine ⟨"  ", "\n", ?_, trivial⟩
      dsimp only
      rw [opening, close]
      simp only [String.append_assoc]
  unfold fieldLine
  simp only [String.append_assoc]
  exact note.before _

theorem declaration_carries (m : Model) : Carries (notes m) (declaration m) := by
  have own : Carries ((nonEmpty? m.description).map fun d =>
      "/**\n * " ++ escapeComment d ++ "\n */").toList (descriptionComment m.description) := by
    unfold descriptionComment
    cases nonEmpty? m.description with
    | none => trivial
    | some d =>
      have close : "\n */\n" = "\n */" ++ "\n" := rfl
      refine ⟨"", "\n", ?_, trivial⟩
      dsimp only
      rw [close, String.empty_append, ← String.append_assoc]
  unfold notes declaration
  refine own.append ?_
  cases m.body with
  | object fields extra =>
    have lines : List.Forall₂ Carries (fields.map fun f => (fieldNote? f).toList)
        (fields.map fieldLine) := by
      rw [List.forall₂_map_left_iff, List.forall₂_map_right_iff]
      exact List.forall₂_same.mpr fun f _ => fieldLine_carries f
    dsimp only
    rw [List.flatMap_def]
    exact (((Carries.join lines "").behind _).before _).before _
  | enumeration values nullable => trivial
  | union variants discriminator => trivial
  | «alias» target => trivial

end TypeScript

theorem Zod.modelDeclaration_carries (s : SchemaRef) (name : String) (v : Validator) :
    Carries (note? s).toList (modelDeclaration s name v) := by
  have note : Carries (note? s).toList (modelComment s) := by
    unfold note? modelComment
    cases s.item?.bind (·.description) with
    | none => trivial
    | some d =>
      have close : " */\n" = " */" ++ "\n" := rfl
      refine ⟨"", "\n", ?_, trivial⟩
      dsimp only
      rw [close, String.empty_append, ← String.append_assoc]
  unfold modelDeclaration
  simp only [String.append_assoc]
  exact note.before _

theorem Client.axios_texts (style : AxiosStyle) (c : ClientContext) (endpoints : List Endpoint)
    (d : Deferred) : (calls (axios style) c endpoints d).filterMap Call.text? =
      endpoints.map fun e => axiosDeferred e c.target (style.factory? c.unit) := by
  induction endpoints generalizing d with
  | nil => rfl
  | cons e rest ih =>
    have own : Deferred.find? (d.register e.name.camel
        (axiosDeferred e c.target (style.factory? c.unit))) e.name.camel =
          some (axiosDeferred e c.target (style.factory? c.unit)) :=
      Keyed.find?_insert_self _ _ _
    have first : calls (axios style) c (e :: rest) d =
        ⟨e, d, .ok ⟨axiosText e c.target, e.modelRefs⟩,
        d.register e.name.camel (axiosDeferred e c.target (style.factory? c.unit))⟩ ::
          calls (axios style) c rest _ := rfl
    rw [first, List.filterMap_cons, ih, List.map_cons]
    unfold Call.text?
    dsimp only
    rw [own]

theorem Client.axiosFooter_carries (style : AxiosStyle) (c : UnitContext) (d : Deferred)
    {target : Target} {factory : Option String}
    (left : d.flush c.operationNames =
      c.endpoints.map fun e => axiosDeferred e target factory) :
    Carries (c.endpoints.flatMap typeNotes) (axiosFooter style c d) := by
  have texts : Carries (c.endpoints.flatMap typeNotes) (flushed c d) := by
    unfold flushed
    rw [left, List.flatMap_def]
    apply Carries.join
    rw [List.forall₂_map_left_iff, List.forall₂_map_right_iff]
    exact List.forall₂_same.mpr fun e _ => axiosDeferred_carries e target factory
  have exports : Carries [] (axiosExports style c) := trivial
  have both : List.Forall₂ Carries [[], c.endpoints.flatMap typeNotes]
      [axiosExports style c, flushed c d] := .cons exports (.cons texts .nil)
  have solid : ∀ cs ∈ [[], c.endpoints.flatMap typeNotes], ∀ n ∈ cs, Solid n := by
    intro cs mem n note
    rcases List.mem_pair.mp mem with rfl | rfl
    · cases note
    · obtain ⟨e, _, type⟩ := List.mem_flatMap.mp note
      exact (typeNotes_endsComment type).solid
  obtain ⟨kept, same, carries⟩ := Carries.filter both solid
  have all := Carries.join carries "\n\n"
  rw [same] at all
  simpa [axiosFooter] using all

namespace Run

def modelNotes (r : Run) (n : String) : List String :=
  match r.resolved.arena.find? n with
  | none => []
  | some s =>
    match r.target.models with
    | .typescript => TypeScript.notes (Model.ofSchema n s)
    | .zod => (Zod.note? s).toList

def fileNotes (r : Run) (path : String) : List String :=
  (r.modelContext.merged r.reachable path).flatMap r.modelNotes

def unitNotes (r : Run) (u : OutputUnit) : List String :=
  let own := u.endpoints r.endpoints
  if r.target.client = "fetch" then own.flatMap Client.notes
  else if r.target.client = "zod" then []
  else own.flatMap (fun e => (Client.comment? e).toList) ++ own.flatMap Client.typeNotes

variable {r : Run} {doc : Document} {n : String} {u : OutputUnit}

theorem modelNotes_endsComment {c : String} (h : c ∈ r.modelNotes n) : EndsComment c := by
  unfold modelNotes at h
  split at h
  · cases h
  · split at h
    · exact TypeScript.notes_endsComment h
    · exact Zod.note_endsComment (Option.mem_toList.mp h)

theorem fileNotes_endsComment {c path : String} (h : c ∈ r.fileNotes path) : EndsComment c := by
  obtain ⟨n, _, note⟩ := List.mem_flatMap.mp h
  exact modelNotes_endsComment note

theorem unitNotes_endsComment {c : String} (h : c ∈ r.unitNotes u) : EndsComment c := by
  unfold unitNotes at h
  dsimp only at h
  split at h
  · obtain ⟨e, _, note⟩ := List.mem_flatMap.mp h
    exact Client.notes_endsComment note
  · split at h
    · cases h
    · rcases List.mem_append.mp h with own | type
      · obtain ⟨e, _, note⟩ := List.mem_flatMap.mp own
        exact Client.comment_endsComment (Option.mem_toList.mp note)
      · obtain ⟨e, _, note⟩ := List.mem_flatMap.mp type
        exact Client.typeNotes_endsComment note

theorem models_carry (starts : r.Starts CommandLine.registry doc) :
    r.ModelsCarry r.modelNotes where
  text n e h := by
    refine ModelEntry.text_carries (fun c note => (modelNotes_endsComment note).solid) ?_
    obtain ⟨s, found, run⟩ := h
    rw [CommandLine.registry_emitter_kind starts.emitter] at run
    unfold modelNotes
    rw [found]
    cases models : r.target.models with
    | typescript =>
      rw [models] at run
      cases run
      exact TypeScript.declaration_carries _
    | zod =>
      rw [models] at run
      obtain ⟨v, _, rfl⟩ := Zod.modelEntry_iff.mp (Outcome.mapError_eq_ok.mp run)
      exact Zod.modelDeclaration_carries s _ v
  solid n m note := (modelNotes_endsComment note).solid

theorem fetch_carries (fetch : r.backend = Client.fetch) :
    r.UnitCarries u ((u.endpoints r.endpoints).flatMap Client.notes) := by
  refine .of_texts fun e t before after run => ?_
  rw [fetch] at run
  rw [Client.fetch_text run]
  exact Client.fetchText_carries e _

theorem axios_carries (starts : r.Starts CommandLine.registry doc) (unit : u ∈ r.units)
    {style : Client.AxiosStyle} (axios : r.backend = Client.axios style) :
    r.UnitCarries u ((u.endpoints r.endpoints).flatMap (fun e => (Client.comment? e).toList) ++
      (u.endpoints r.endpoints).flatMap Client.typeNotes) := by
  intro c renders closed
  refine ⟨[], (u.endpoints r.endpoints).map fun e => (Client.comment? e).toList,
    (u.endpoints r.endpoints).flatMap Client.typeNotes, ?_, trivial, ?_, ?_⟩
  · rw [List.flatMap_def (f := fun e => (Client.comment? e).toList), List.nil_append]
  · rw [List.forall₂_map_left_iff, List.forall₂_map_right_iff]
    refine renders.texts.imp fun e t given => ?_
    obtain ⟨before, after, run⟩ := given
    rw [axios] at run
    rw [Client.axios_text run]
    exact Client.axiosText_carries e _
  · have own := CommandLine.registry_defersOwn starts.backend
    obtain ⟨left, _⟩ := clientTexts_flush (c := r.clientContext u) (d := {}) own
      (starts.names_nodup unit) fun n _ => rfl
    rw [axios, Client.axios_texts] at left
    unfold deferred at closed
    rw [axios] at closed
    rw [← Except.ok.inj closed]
    exact Client.axiosFooter_carries style (r.unitContext u) _ left

theorem unit_carries (starts : r.Starts CommandLine.registry doc) (unit : u ∈ r.units) :
    r.UnitCarries u (r.unitNotes u) := by
  unfold unitNotes
  dsimp only
  rcases CommandLine.registry_backend_named starts.backend with
    ⟨client, fetch⟩ | ⟨client, factory⟩ | ⟨client, functions⟩ | ⟨client, zod⟩
  · rw [if_pos client]
    exact fetch_carries fetch
  · rw [client, if_neg (by decide), if_neg (by decide)]
    exact axios_carries starts unit factory
  · rw [client, if_neg (by decide), if_neg (by decide)]
    exact axios_carries starts unit functions
  · rw [client, if_neg (by decide), if_pos rfl]
    exact .none r u

/-- The comments of each file, by its path. -/
def annotations (r : Run) : List (String × List String) :=
  ((r.state.modelFiles.filter fun f => !r.state.isEmbedded f).map fun f =>
    (f.path, r.fileNotes f.path)) ++
  r.units.map fun u => (u.path, r.fileNotes u.path ++ r.unitNotes u)

end Run

/-- Where the texts of a document stand in comments. Each comment on an operation, a parameter, a
field or a model closes at its own end only, whatever the document says. The banner of every file
does so just when neither the title nor the version closes it. -/
theorem CommandLine.registry_run_comments {doc : Document} {target : Target} {report : Report}
    (h : registry.run doc target = .ok report) :
    ∃ r : Run, (r.Starts registry doc ∧ r.target = target ∧ r.state.info = doc.info) ∧
      List.Forall₂ (fun page f => f.path = page.1 ∧ ∃ rest, f.content = r.state.banner ++ rest ∧
        Carries page.2 rest) r.annotations report.files ∧
      (∀ page ∈ r.annotations, ∀ note ∈ page.2, EndsComment note) ∧
      (EndsComment r.state.banner ↔ LeavesOpen doc.info.title ∧ LeavesOpen doc.info.version) := by
  obtain ⟨r, starts, rfl, rfl⟩ := Run.run_eq_ok.mp h
  have info : r.state.info = doc.info := by
    obtain ⟨_, _, _, _, _, _, _, same⟩ := Document.resolve_eq_ok.mp starts.resolved
    show r.resolved.document.info = _
    rw [same]
  refine ⟨r, ⟨starts, rfl, info⟩, ?_, ?_, ?_⟩
  · have pages : r.annotations =
        r.places.map fun p => (p.path, r.gather r.modelNotes r.unitNotes p) := by
      simp [Run.annotations, Run.places, Run.gather, Run.fileNotes, Function.comp_def]
    rw [pages, List.forall₂_map_left_iff]
    exact Run.report_carries (Run.models_carry starts) starts
      (fun u m note => (Run.unitNotes_endsComment note).solid)
      fun u unit => Run.unit_carries starts unit
  · intro page listed note mem
    rcases List.mem_append.mp listed with file | unit
    · obtain ⟨f, _, rfl⟩ := List.mem_map.mp file
      exact Run.fileNotes_endsComment mem
    · obtain ⟨u, _, rfl⟩ := List.mem_map.mp unit
      rcases List.mem_append.mp mem with model | own
      · exact Run.fileNotes_endsComment model
      · exact Run.unitNotes_endsComment own
  · unfold RunState.banner
    rw [info]
    exact banner_endsComment

def remarks : Document where
  openapi := "3.0.3"
  info := { title := "Zoo */", version := "1" }
  paths := [("/entries", { operations :=
    [(.get, { operationId := some "listEntries", summary := some "sent */ off" })] })]

def remarksRun (e : Endpoint) : Run :=
  ⟨Client.fetch, TypeScript.emitter, ⟨remarks, ⟨[]⟩⟩, {}, [e]⟩

def remarksNote : String := "/**\n * sent *\\/ off\n */"

theorem remarks_endpoints : ∃ e, buildEndpoints ⟨remarks, ⟨[]⟩⟩ {} = .ok [e] ∧
    Client.notes e = [remarksNote] :=
  ⟨_, rfl, by decide⟩

theorem remarksRun_annotations {e : Endpoint} (notes : Client.notes e = [remarksNote]) :
    ∃ path, (remarksRun e).annotations = [(path, [remarksNote])] := by
  have models : ∀ path, (remarksRun e).fileNotes path = [] := by
    intro path
    have none : (remarksRun e).reachable = [] := Run.reachable_nil rfl
    unfold Run.fileNotes ModelContext.merged
    rw [none]
    simp
  have files : (remarksRun e).state.modelFiles = [] := Run.modelFiles_nil rfl
  have units : (remarksRun e).units = [⟨"Zoo */", (remarksRun e).fileStem ++ ".ts", [0]⟩] := rfl
  have own : (remarksRun e).unitNotes ⟨"Zoo */", (remarksRun e).fileStem ++ ".ts", [0]⟩ =
      [remarksNote] := by
    show [e].flatMap Client.notes = _
    simp [notes]
  unfold Run.annotations
  rw [files, units]
  exact ⟨(remarksRun e).fileStem ++ ".ts", by simp [models, own]⟩

theorem CommandLine.registry_run_comments_remarks :
    ∃ (report : Report) (r : Run) (f : GeneratedFile) (rest : String),
      registry.run remarks {} = .ok report ∧ report.files = [f] ∧
      f.content = r.state.banner ++ rest ∧ Carries [remarksNote] rest ∧
      EndsComment remarksNote ∧ ¬ EndsComment r.state.banner := by
  obtain ⟨e, built, notes⟩ := remarks_endpoints
  have starts : (remarksRun e).Starts registry remarks :=
    { backend := rfl, emitter := rfl, resolved := rfl, endpoints := built, distinct := rfl }
  have run := Run.run_eq_ok.mpr ⟨_, starts, rfl, rfl⟩
  obtain ⟨r, ⟨begun, target, _⟩, files, closed, banner⟩ := registry_run_comments run
  cases begun.unique starts target
  obtain ⟨path, pages⟩ := remarksRun_annotations notes
  rw [pages] at files closed
  obtain ⟨f, last, ⟨_, rest, content, carries⟩, none, one⟩ := List.forall₂_cons_left_iff.mp files
  cases none
  refine ⟨_, _, f, rest, run, one, content, carries,
    closed _ List.mem_cons_self _ List.mem_cons_self, fun ends => ?_⟩
  have title : ¬ LeavesOpen remarks.info.title := by decide
  exact title (banner.mp ends).1

end TypedClients
