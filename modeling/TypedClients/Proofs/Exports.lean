import TypedClients.Proofs.Carries
import TypedClients.Proofs.Constants
import TypedClients.Proofs.Resolution

namespace TypedClients

open Zod (Step Suffix ConstantSite Spells spell)

theorem Zod.spell_type (name : String) (front rest : List Step) (i : Nat) (k : Suffix) :
    spell name (front ++ .type i :: rest) k = spell name (front ++ rest) k := by
  induction front generalizing name with
  | nil =>
    show spell (name ++ "") rest k = _
    rw [String.append_empty]
    rfl
  | cons step front ih => exact ih _

/-- A constant that a file exports. A type may be stated between its name and its value. -/
structure Export where
  name : String
  typed : Bool

def Export.head (e : Export) : String := "export const " ++ e.name ++ if e.typed then ":" else " ="

theorem Export.head_solid (e : Export) : Solid e.head := by
  unfold head
  cases e.typed with
  | false =>
    refine ⟨'=', ?_, by decide⟩
    rw [String.toList_append, List.getLast?_append]
    rfl
  | true =>
    refine ⟨':', ?_, by decide⟩
    rw [String.toList_append, List.getLast?_append]
    rfl

theorem Export.flatten_heads (es : List Export) :
    (es.map fun e => [e.head]).flatten = es.map Export.head := by
  rw [← List.flatMap_def, List.map_eq_flatMap]

theorem Export.opens (name : String) {t s after : String} {cs : List String} (h : t = " =" ++ s)
    (later : Carries cs after) :
    Carries (Export.head ⟨name, false⟩ :: cs) ("export const " ++ (name ++ (t ++ after))) := by
  refine ⟨"", s ++ after, ?_, later.behind s⟩
  rw [h]
  simp only [head, String.empty_append, String.append_assoc]
  rfl

structure Declarer where
  name : String
  hoists : List Step → Suffix → Prop

def Declarer.plain (name : String) : Declarer := ⟨name, fun _ _ => False⟩

inductive Declarer.Names (d : Declarer) : Option ConstantSite → String → Prop where
  | own : d.Names none d.name
  | constant {steps : List Step} {k : Suffix} (hoisted : d.hoists steps k) :
      d.Names (some (steps, k)) (spell d.name steps k)

theorem Declarer.enumerates {d : Declarer} {ns : List String}
    (constants : Spells d.hoists d.name ns) : Enumerates d.Names (ns ++ [d.name]) := by
  have own : Enumerates (fun x n => x ∈ [(none : Option ConstantSite)] ∧ n = d.name) [d.name] :=
    .ofList (List.nodup_singleton _) fun _ => d.name
  refine ((Enumerates.map (Option.some_injective _) constants).append own ?_).congr ?_
  · rintro _ _ _ ⟨c, rfl, _⟩ ⟨same, _⟩
    cases List.mem_singleton.mp same
  · intro x n
    constructor
    · rintro (⟨c, rfl, hoisted, rfl⟩ | ⟨same, rfl⟩)
      · exact .constant hoisted
      · rw [List.mem_singleton.mp same]
        exact .own
    · intro named
      cases named with
      | own => exact .inr ⟨List.mem_singleton.mpr rfl, rfl⟩
      | @constant steps k hoisted => exact .inl ⟨(steps, k), rfl, hoisted, rfl⟩

/-- A declarer, by its position, and one of its constants if the declarer itself is not meant. -/
abbrev Origin := Nat × Option ConstantSite

def Yields (ds : List Declarer) (o : Origin) (n : String) : Prop :=
  ∃ d, ds[o.1]? = some d ∧ d.Names o.2 n

theorem Yields.functional {ds : List Declarer} {o : Origin} {n m : String}
    (first : Yields ds o n) (second : Yields ds o m) : n = m := by
  obtain ⟨i, x⟩ := o
  obtain ⟨d, listed, named⟩ := first
  obtain ⟨d', listed', named'⟩ := second
  cases Option.some.inj (listed.symm.trans listed')
  cases named with
  | own =>
    cases named' with
    | own => rfl
  | constant _ =>
    cases named' with
    | constant _ => rfl

def Unambiguous (ds : List Declarer) : Prop :=
  ∀ o p n, Yields ds o n → Yields ds p n → o = p

/-- The types of a schema share the name of the schema, so a keyword that becomes a constant for two
of them is declared twice. -/
theorem types_ambiguous {ds : List Declarer} {i : Nat} {d : Declarer} {front rest : List Step}
    {a b : Nat} {k : Suffix} (listed : ds[i]? = some d)
    (first : d.hoists (front ++ .type a :: rest) k) (second : d.hoists (front ++ .type b :: rest) k)
    (other : a ≠ b) : ¬ Unambiguous ds := by
  have same : spell d.name (front ++ .type a :: rest) k =
      spell d.name (front ++ .type b :: rest) k :=
    (Zod.spell_type _ _ _ _ _).trans (Zod.spell_type _ _ _ _ _).symm
  intro unambiguous
  have here : Yields ds (i, some (front ++ .type a :: rest, k))
      (spell d.name (front ++ .type a :: rest) k) := ⟨d, listed, .constant first⟩
  have there : Yields ds (i, some (front ++ .type b :: rest, k))
      (spell d.name (front ++ .type b :: rest) k) := ⟨d, listed, .constant second⟩
  rw [same] at here
  have equal := unambiguous _ _ _ here there
  simp only [Prod.mk.injEq, Option.some.injEq, List.append_cancel_left_eq, List.cons.injEq,
    Step.type.injEq] at equal
  exact other equal.2.1.1

/-- The exports are those of the declarers, one declarer behind the other. -/
def ExportedBy (ds : List Declarer) (es : List Export) : Prop :=
  ∃ ess : List (List Export), es = ess.flatten ∧
    List.Forall₂ (fun d es => Enumerates d.Names (es.map Export.name)) ds ess

namespace ExportedBy

variable {ds : List Declarer} {es : List Export}

theorem nothing : ExportedBy [] [] := ⟨[], rfl, .nil⟩

theorem append {others : List Declarer} {more : List Export} (first : ExportedBy ds es)
    (second : ExportedBy others more) : ExportedBy (ds ++ others) (es ++ more) := by
  obtain ⟨ess, rfl, own⟩ := first
  obtain ⟨ess', rfl, own'⟩ := second
  exact ⟨ess ++ ess', List.flatten_append.symm, List.rel_append own own'⟩

theorem flatMap {α : Type} {as : List α} {declarers : α → List Declarer}
    {exports : α → List Export} (h : ∀ a ∈ as, ExportedBy (declarers a) (exports a)) :
    ExportedBy (as.flatMap declarers) (as.flatMap exports) := by
  induction as with
  | nil => exact nothing
  | cons a rest ih =>
    rw [List.flatMap_cons, List.flatMap_cons]
    exact (h a List.mem_cons_self).append (ih fun b mem => h b (List.mem_cons_of_mem _ mem))

theorem one {d : Declarer} {ns : List String} (constants : Spells d.hoists d.name ns)
    (names : es.map Export.name = ns ++ [d.name]) : ExportedBy [d] es := by
  refine ⟨[es], List.flatten_singleton.symm, .cons ?_ .nil⟩
  rw [names]
  exact Declarer.enumerates constants

theorem plain (name : String) : ExportedBy [.plain name] [⟨name, false⟩] :=
  one (.nothing fun _ _ => id) rfl

theorem enumerates (h : ExportedBy ds es) : Enumerates (Yields ds) (es.map Export.name) := by
  obtain ⟨ess, rfl, own⟩ := h
  have each : List.Forall₂ (fun (d : Declarer × Nat) ns => Enumerates d.1.Names ns) ds.zipIdx
      (ess.map (·.map Export.name)) := by
    rw [List.forall₂_map_right_iff]
    exact forall₂_zipIdx (R := fun (d : Declarer) _ (es : List Export) =>
      Enumerates d.Names (es.map Export.name))
      (own.imp fun d es given _ => given) 0
  have all := Enumerates.many (fun i (_ : Declarer) x => ((i, x) : Origin))
    (fun i _ x y same => congrArg Prod.snd same)
    (fun i j _ _ x y same => congrArg Prod.fst same) (R := fun d _ => d.Names) each
  rw [List.map_flatten]
  refine all.congr fun o n => ?_
  constructor
  · rintro ⟨i, d, x, listed, rfl, named⟩
    rw [Nat.zero_add]
    exact ⟨d, listed, named⟩
  · rintro ⟨d, listed, named⟩
    refine ⟨o.1, d, o.2, listed, ?_, named⟩
    rw [Nat.zero_add]

end ExportedBy

namespace Zod

def Validator.exports (v : Validator) (name : String) (typed : Bool) : List Export :=
  v.names.map (⟨·, false⟩) ++ [⟨name, typed⟩]

theorem Validator.exports_names (v : Validator) (name : String) (typed : Bool) :
    (v.exports name typed).map Export.name = v.names ++ [name] := by
  simp [exports, Function.comp_def]

theorem constantLines_carry (v : Validator) :
    List.Forall₂ Carries ((v.names.map (⟨·, false⟩)).map fun e : Export => [e.head])
      v.constantLines := by
  unfold Validator.names Validator.constantLines
  rw [List.map_map, List.map_map, List.forall₂_map_left_iff, List.forall₂_map_right_iff]
  refine List.forall₂_same.mpr fun c _ => ?_
  unfold Constant.line
  simp only [String.append_assoc]
  exact Export.opens _ (s := " ") rfl (.unmarked _)

theorem declaration_carries {v : Validator} {cs : List String} (expression : Carries cs v.expression)
    (name : String) :
    Carries ((v.exports name false).map Export.head ++ cs) (v.declaration name) := by
  have own : Carries (Export.head ⟨name, false⟩ :: cs)
      ("export const " ++ name ++ " = " ++ v.expression ++ ";") := by
    simp only [String.append_assoc]
    exact Export.opens _ (s := " ") rfl (expression.before ";")
  have lines := Carries.join (constantLines_carry v) "\n"
  unfold Validator.declaration Validator.exports
  dsimp only
  rw [List.map_append, List.append_assoc]
  split
  · rename_i none
    have names : v.names = [] := by
      unfold Validator.names
      rw [List.isEmpty_iff.mp none]
      rfl
    rw [names]
    exact own
  · rw [Export.flatten_heads] at lines
    exact (lines.before _).append own

theorem modelText_carries (schema : SchemaRef) (name path : String) {v : Validator}
    {cs : List String} (expression : Carries cs v.expression) (solid : ∀ c ∈ cs, Solid c)
    (imports : List String) :
    Carries ((v.exports name v.chain.isCyclic).map Export.head ++ cs)
      (ModelEntry.text ⟨name, path, v.constantLines, modelDeclaration schema name v, imports⟩) := by
  have own : Carries (Export.head ⟨name, v.chain.isCyclic⟩ :: cs)
      (Text.trimEndBlanks (modelDeclaration schema name v)) := by
    refine Carries.trimEndBlanks (fun c mem => ?_) ?_
    · rcases List.mem_cons.mp mem with rfl | mem
      · exact Export.head_solid _
      · exact solid c mem
    · have valued : Carries cs (v.expression ++ (";\nexport type " ++ (name ++
          (" = zod.infer<typeof " ++ (name ++ ">;"))))) := expression.before _
      unfold modelDeclaration Export.head
      dsimp only
      cases v.chain.isCyclic with
      | false =>
        simp only [String.append_assoc, Bool.false_eq_true, if_false, String.empty_append]
        exact (Export.opens _ (s := " ") rfl valued).behind _
      | true =>
        refine ⟨modelComment schema, " zod.ZodType<unknown>" ++ " = " ++ (v.expression ++
          (";\nexport type " ++ (name ++ (" = zod.infer<typeof " ++ (name ++ ">;"))))),
          String.toList_injective ?_, valued.behind _⟩
        simp
  have lines : List.Forall₂ Carries ((v.names.map fun n => [Export.head ⟨n, false⟩]) ++
      [Export.head ⟨name, v.chain.isCyclic⟩ :: cs])
        (v.constantLines ++ [Text.trimEndBlanks (modelDeclaration schema name v)]) := by
    have constants := constantLines_carry v
    rw [List.map_map] at constants
    exact List.rel_append constants (.cons own .nil)
  have all := Carries.join lines "\n"
  have marks : ((v.names.map fun n => [Export.head ⟨n, false⟩]) ++
      [Export.head ⟨name, v.chain.isCyclic⟩ :: cs]).flatten =
        (v.exports name v.chain.isCyclic).map Export.head ++ cs := by
    unfold Validator.exports
    simp [← List.map_eq_flatMap, ← List.flatMap_def]
  rwa [marks] at all

end Zod

namespace Client

def fetchNames (e : Endpoint) : List String := ["get" ++ e.name.pascal ++ "Url", e.name.camel]

theorem fetchText_exports (e : Endpoint) (target : Target) :
    Carries ((fetchNames e).map fun n => Export.head ⟨n, false⟩) (fetchText e target) := by
  have address : Carries [Export.head ⟨"get" ++ e.name.pascal ++ "Url", false⟩]
      (urlFunction (Request.ofEndpoint e target)) := by
    unfold urlFunction
    simp only [String.append_assoc]
    exact Export.opens _ (s := " (") rfl (.unmarked _)
  have function : ∀ response json, Carries [Export.head ⟨e.name.camel, false⟩]
      (fetchFunction (Request.ofEndpoint e target) response json) := by
    intro response json
    unfold fetchFunction
    simp only [String.append_assoc]
    exact (Export.opens _ (s := " async (") rfl (.unmarked _)).behind _
  unfold fetchText
  refine Carries.trimEndBlanks (fun c mem => ?_) ?_
  · obtain ⟨n, _, rfl⟩ := List.mem_map.mp mem
    exact Export.head_solid _
  · exact ((address.behind _).before _).append (function _ _)

theorem axiosHeader_exports (c : UnitContext) :
    Carries [Export.head ⟨factoryName c.title, false⟩] (axiosHeader .factory c) := by
  unfold axiosHeader
  dsimp only
  have head := Export.opens (factoryName c.title) (t := " = () => \x7b") (s := " () => \x7b") rfl
    (.unmarked "")
  rwa [String.append_empty, ← String.append_assoc] at head

end Client

namespace Run

def modelExports (r : Run) (n : String) : List Export :=
  match r.target.models, r.resolved.arena.find? n with
  | .zod, some s =>
    match (Zod.modelScope r.modelContext n).validate s (Zod.modelName n) true with
    | .ok v => v.exports (Zod.modelName n) v.chain.isCyclic
    | .error _ => []
  | _, _ => []

/-- Validators of models are declared with constants; types are no constants themselves. -/
def modelDeclarers (r : Run) (n : String) : List Declarer :=
  match r.target.models, r.resolved.arena.find? n with
  | .zod, some s =>
    [⟨Zod.modelName n, Zod.Hoists r.resolved.arena (.all false) False [] s⟩]
  | _, _ => []

def taskExports (r : Run) (t : Zod.Task) : List Export :=
  match t.validator r.resolved.arena r.target.zod (Zod.clientRefs r.target.models) with
  | .ok v => v.exports t.name false
  | .error _ => []

def taskDeclarer (r : Run) (t : Zod.Task) : Declarer :=
  ⟨t.name, t.Hoists r.resolved.arena r.target.zod (Zod.clientRefs r.target.models)⟩

def unitExports (r : Run) (u : OutputUnit) : List Export :=
  let own := u.endpoints r.endpoints
  if r.target.client = "zod" then own.flatMap fun e => (Zod.tasks e).flatMap r.taskExports
  else if r.target.client = "fetch" then
    own.flatMap fun e => (Client.fetchNames e).map fun n => ⟨n, false⟩
  else if r.target.client = "axios" then
    [⟨Client.factoryName (Client.pascalTitle u.name), false⟩]
  else []

def unitDeclarers (r : Run) (u : OutputUnit) : List Declarer :=
  let own := u.endpoints r.endpoints
  if r.target.client = "zod" then own.flatMap fun e => (Zod.tasks e).map r.taskDeclarer
  else if r.target.client = "fetch" then own.flatMap fun e => (Client.fetchNames e).map .plain
  else if r.target.client = "axios" then
    [.plain (Client.factoryName (Client.pascalTitle u.name))]
  else []

def declarers (r : Run) (p : Place) : List Declarer := r.gather r.modelDeclarers r.unitDeclarers p

variable {r : Run} {doc : Document} {u : OutputUnit}

theorem models_export (starts : r.Starts CommandLine.registry doc) :
    r.ModelsCarry fun n => (r.modelExports n).map Export.head where
  text n e h := by
    obtain ⟨s, found, run⟩ := h
    rw [CommandLine.registry_emitter_kind starts.emitter] at run
    unfold modelExports
    rw [found]
    cases models : r.target.models with
    | typescript => trivial
    | zod =>
      rw [models] at run
      obtain ⟨v, made, rfl⟩ := Zod.modelEntry_iff.mp (Outcome.mapError_eq_ok.mp run)
      dsimp only
      rw [made]
      have text := Zod.modelText_carries s (Zod.modelName n) (r.modelContext.path n)
        (.unmarked v.expression) (by simp) (v.models.filter (· != Zod.modelName n))
      rwa [List.append_nil] at text
  solid n m mem := by
    obtain ⟨e, _, rfl⟩ := List.mem_map.mp mem
    exact e.head_solid

theorem modelExports_exported (starts : r.Starts CommandLine.registry doc) {n : String}
    (reached : n ∈ r.reachable) : ExportedBy (r.modelDeclarers n) (r.modelExports n) := by
  obtain ⟨entries, _⟩ := Run.report_clean starts.clean
  obtain ⟨e, _, s, found, run⟩ := Outcome.mem_of_forall₂ entries.flip reached
  rw [CommandLine.registry_emitter_kind starts.emitter] at run
  unfold modelDeclarers modelExports
  rw [found]
  cases models : r.target.models with
  | typescript => exact .nothing
  | zod =>
    rw [models] at run
    obtain ⟨v, made, _⟩ := Zod.modelEntry_iff.mp (Outcome.mapError_eq_ok.mp run)
    have constants := Zod.Scope.validate_spells made
    dsimp only
    rw [made]
    refine .one ?_ (v.exports_names _ _)
    have style : (Zod.modelScope r.modelContext n).refs = .inline ↔ False := by
      simp [Zod.modelScope]
    rw [style] at constants
    exact constants

theorem fetch_exports (fetch : r.backend = Client.fetch) :
    r.UnitCarries u ((u.endpoints r.endpoints).flatMap fun e =>
      (Client.fetchNames e).map fun n => Export.head ⟨n, false⟩) := by
  refine .of_texts fun e t before after run => ?_
  rw [fetch] at run
  rw [Client.fetch_text run]
  exact Client.fetchText_exports e _

theorem axios_exports (axios : r.backend = Client.axios .factory) :
    r.UnitCarries u [Export.head ⟨Client.factoryName (Client.pascalTitle u.name), false⟩] := by
  intro c renders _
  have texts := Carries.nothing (c.texts.map (·.implementation))
  refine ⟨[Export.head ⟨Client.factoryName (Client.pascalTitle u.name), false⟩], _, [], ?_, ?_,
    texts, trivial⟩
  · simp
  · have header := renders.header
    rw [axios] at header
    rw [← Except.ok.inj header]
    have title : (r.unitContext u).title = Client.pascalTitle u.name := by
      show r.backend.title u.name = _
      rw [axios]
      rfl
    rw [← title]
    exact Client.axiosHeader_exports _

theorem clientText_tasks {e : Endpoint} {text : ClientText}
    (run : Zod.clientText (r.clientContext u) e = .ok text) : ∃ declarations,
      text.implementation = Text.join "\n\n" declarations ∧
        List.Forall₂ (fun t d => ∃ v, t.validator r.resolved.arena r.target.zod
          (Zod.clientRefs r.target.models) = .ok v ∧ d = v.declaration t.name)
            (Zod.tasks e) declarations := by
  unfold Zod.clientText at run
  simp only [Outcome.bind_eq_ok, Outcome.pure_eq_ok] at run
  obtain ⟨declared, made, rfl⟩ := run
  refine ⟨_, rfl, ?_⟩
  rw [List.forall₂_map_right_iff]
  refine (Outcome.mapM_forall₂ made).imp fun t p step => ?_
  simp only [Outcome.bind_eq_ok, Outcome.pure_eq_ok] at step
  obtain ⟨v, given, rfl⟩ := step
  exact ⟨v, given, rfl⟩

theorem clientText_exports {e : Endpoint} {text : ClientText}
    (run : Zod.clientText (r.clientContext u) e = .ok text) :
    Carries (((Zod.tasks e).flatMap r.taskExports).map Export.head) text.implementation := by
  obtain ⟨declarations, implementation, made⟩ := r.clientText_tasks run
  rw [implementation, List.map_flatMap, List.flatMap_def]
  apply Carries.join
  rw [List.forall₂_map_left_iff]
  refine made.imp fun t d given => ?_
  obtain ⟨v, validated, rfl⟩ := given
  unfold taskExports
  rw [validated]
  have declared := Zod.declaration_carries (.unmarked v.expression) t.name
  rwa [List.append_nil] at declared

theorem clientText_exported {e : Endpoint} {text : ClientText}
    (run : Zod.clientText (r.clientContext u) e = .ok text) :
    ExportedBy ((Zod.tasks e).map r.taskDeclarer) ((Zod.tasks e).flatMap r.taskExports) := by
  obtain ⟨declarations, _, made⟩ := r.clientText_tasks run
  rw [List.map_eq_flatMap]
  refine .flatMap fun t task => ?_
  obtain ⟨d, _, v, validated, _⟩ := Outcome.mem_of_forall₂ made.flip task
  unfold taskExports
  rw [validated]
  exact .one (Zod.Task.validator_spells validated) (v.exports_names _ _)

theorem zod_exports (zod : r.backend = Zod.backend) :
    r.UnitCarries u ((u.endpoints r.endpoints).flatMap fun e =>
      ((Zod.tasks e).flatMap r.taskExports).map Export.head) := by
  refine .of_texts fun e t before after run => ?_
  rw [zod] at run
  exact r.clientText_exports (Zod.backend_text run)

theorem unit_exports (starts : r.Starts CommandLine.registry doc) (u : OutputUnit) :
    r.UnitCarries u ((r.unitExports u).map Export.head) := by
  unfold unitExports
  dsimp only
  rcases CommandLine.registry_backend_named starts.backend with
    ⟨client, fetch⟩ | ⟨client, factory⟩ | ⟨client, functions⟩ | ⟨client, zod⟩
  · rw [client, if_neg (by decide), if_pos rfl, List.map_flatMap]
    simp only [List.map_map]
    exact fetch_exports fetch
  · rw [client, if_neg (by decide), if_neg (by decide), if_pos rfl]
    exact axios_exports factory
  · rw [client, if_neg (by decide), if_neg (by decide), if_neg (by decide)]
    exact .none r u
  · rw [client, if_pos rfl, List.map_flatMap]
    exact zod_exports zod

theorem unitExports_exported (starts : r.Starts CommandLine.registry doc) (u : OutputUnit) :
    ExportedBy (r.unitDeclarers u) (r.unitExports u) := by
  unfold unitDeclarers unitExports
  dsimp only
  split
  · rename_i client
    have zod : r.backend = Zod.backend := by
      have backend := starts.backend
      rw [client] at backend
      exact (Except.ok.inj backend).symm
    obtain ⟨c, _, renders, _⟩ := alone_renders starts u
    refine .flatMap fun e own => ?_
    obtain ⟨t, _, before, after, run⟩ := Outcome.mem_of_forall₂ renders.texts.flip own
    rw [zod] at run
    exact r.clientText_exported (Zod.backend_text run)
  · split
    · exact .flatMap fun e _ => by
        rw [List.map_eq_flatMap, List.map_eq_flatMap]
        exact .flatMap fun n _ => .plain n
    · split
      · exact .plain _
      · exact .nothing

theorem place_exported (starts : r.Starts CommandLine.registry doc) (p : Place) :
    ExportedBy (r.declarers p) (r.gather r.modelExports r.unitExports p) := by
  unfold declarers gather
  refine (ExportedBy.flatMap fun n mem => ?_).append ?_
  · exact modelExports_exported starts (ModelContext.mem_merged.mp mem).1
  · cases p.unit with
    | none => exact .nothing
    | some u => exact unitExports_exported starts u

end Run

/-- Where the exported constants of each file come from: its models, its operations, and what is
hoisted out of their schemas. Two have the same name just when two of these places spell the same,
which nothing prevents. -/
theorem CommandLine.registry_run_exports {doc : Document} {target : Target} {report : Report}
    (h : registry.run doc target = .ok report) :
    ∃ r : Run, (r.Starts registry doc ∧ r.target = target) ∧
      List.Forall₂ (fun p f => f.path = p.path ∧ ∃ (exports : List Export) (rest : String),
        f.content = r.state.banner ++ rest ∧ Carries (exports.map Export.head) rest ∧
        Enumerates (Yields (r.declarers p)) (exports.map Export.name) ∧
        ((exports.map Export.name).Nodup ↔ Unambiguous (r.declarers p))) r.places report.files := by
  obtain ⟨r, starts, rfl, rfl⟩ := Run.run_eq_ok.mp h
  refine ⟨r, ⟨starts, rfl⟩, ?_⟩
  have solid : ∀ u, ∀ m ∈ (r.unitExports u).map Export.head, Solid m := by
    intro u m mem
    obtain ⟨e, _, rfl⟩ := List.mem_map.mp mem
    exact e.head_solid
  have files := Run.report_carries (Run.models_export starts) starts solid
    fun u _ => Run.unit_exports starts u
  refine files.imp fun p f given => ?_
  obtain ⟨path, rest, content, carries⟩ := given
  have heads : r.gather (fun n => (r.modelExports n).map Export.head)
      (fun u => (r.unitExports u).map Export.head) p =
        (r.gather r.modelExports r.unitExports p).map Export.head := by
    unfold Run.gather
    rw [List.map_append, List.map_flatMap]
    cases p.unit <;> rfl
  rw [heads] at carries
  have names := (Run.place_exported starts p).enumerates
  exact ⟨path, _, rest, content, carries, names, names.nodup_iff fun o n m => Yields.functional⟩

def gaugeSchema : Schema :=
  { type := some (.several [.number, .integer]), minimum := some ⟨0x3ff0000000000000⟩ }

def gaugeResponse : Response :=
  { content := [("application/json", { schema := some (.item gaugeSchema) })] }

def gaugeOperation : Operation :=
  { operationId := some "getA", responses := [("200", .item gaugeResponse)] }

def gauge : Document where
  openapi := "3.0.3"
  info := { title := "Gauge", version := "1" }
  paths := [("/a", { operations := [(.get, gaugeOperation)] })]

def gaugeTarget : Target := { client := "zod" }

theorem gauge_resolve : gauge.resolve = .ok ⟨gauge, ⟨[]⟩⟩ := by
  have checked : ∀ location, checkSchema gauge.declares location (.item gaugeSchema) =
      .ok (.item gaugeSchema) := by
    intro location
    rw [checkSchema_of_named]
    · simp [gaugeSchema, normalRef, normalSchema, normalTable, normalList, normalOption,
        normalAdditional]
    · intro path mentioned
      cases mentioned with
      | inside held _ =>
        obtain ⟨_, none⟩ := Schema.holds_iff_child.mp held
        cases none
  have operation : ∀ location, gauge.resolveOperation location gaugeOperation =
      .ok gaugeOperation := by
    intro location
    simp [gaugeOperation, gaugeResponse, Document.resolveOperation, Document.resolveParameters,
      Document.resolveOptionalBody, Document.resolveResponse, ComponentTable.follow,
      ComponentTable.followFrom, Document.resolveContent, Document.checkOption, checked, bind,
      Except.bind, Except.map, pure, Except.pure]
  have paths : gauge.resolvePaths = .ok gauge.paths := by
    unfold Document.resolvePaths
    show [("/a", _)].mapM _ = _
    simp only [Document.resolvePathItem, Document.resolveParameters, List.mapM_cons,
      List.mapM_nil, operation, bind, Except.bind, Except.map, pure, Except.pure, List.zipIdx_nil]
    rfl
  have none : gauge.declaredSchemas = [] := rfl
  exact Document.resolve_of_plain paths (by simp [none]) (by simp [none]) (by simp [none])

def gaugeTask : Zod.Task := ⟨.response, "getAResponse", .schema (.item gaugeSchema)⟩

theorem gauge_tasks {e : Endpoint} (name : e.name.camel = "getA") (path : e.pathParams = [])
    (query : e.queryParams = []) (headers : e.headers = []) (body : e.body = none)
    (response : e.response = Responses.build "getA" gaugeOperation.responses) :
    Zod.tasks e = [gaugeTask] := by
  have success : isSuccessStatus "200" = true := by decide
  simp [Zod.tasks, Zod.paramsTask, Zod.responseTasks, name, path, query, headers, body, response,
    Responses.build, gaugeOperation, gaugeResponse, responseVariants, success, gaugeTask]

theorem gauge_endpoints : ∃ e, buildEndpoints ⟨gauge, ⟨[]⟩⟩ gaugeTarget = .ok [e] ∧
    Zod.tasks e = [gaugeTask] := by
  have camel : (Name.ofText "getA").camel = "getA" := by decide
  have bare : placeholders "/a" = [] := by decide
  refine ⟨_, rfl, gauge_tasks camel ?_ rfl rfl rfl ?_⟩
  · simp [orderPathParams, bare, mergeParameters, gaugeOperation]
  · show Responses.build (Name.ofText "getA").camel _ = _
    rw [camel]

def gaugeRun (e : Endpoint) : Run :=
  ⟨Zod.backend, TypeScript.emitter, ⟨gauge, ⟨[]⟩⟩, gaugeTarget, [e]⟩

theorem gaugeRun_declarers {e : Endpoint} (tasks : Zod.tasks e = [gaugeTask]) : ∃ p : Place,
    (gaugeRun e).places = [p] ∧
      (gaugeRun e).declarers p = [(gaugeRun e).taskDeclarer gaugeTask] := by
  have files : (gaugeRun e).state.modelFiles = [] := Run.modelFiles_nil rfl
  have none : (gaugeRun e).reachable = [] := Run.reachable_nil rfl
  refine ⟨⟨(gaugeRun e).fileStem ++ ".ts",
    some ⟨"Gauge", (gaugeRun e).fileStem ++ ".ts", [0]⟩⟩, ?_, ?_⟩
  · unfold Run.places
    rw [files]
    rfl
  · have own : (gaugeRun e).unitDeclarers ⟨"Gauge", (gaugeRun e).fileStem ++ ".ts", [0]⟩ =
        [e].flatMap fun e => (Zod.tasks e).map (gaugeRun e).taskDeclarer := rfl
    unfold Run.declarers Run.gather ModelContext.merged
    rw [none, Option.elim_some, own]
    simp [tasks]

theorem gaugeRun_hoists (e : Endpoint) {j : Nat} (two : j < 2) :
    ((gaugeRun e).taskDeclarer gaugeTask).hoists [.type j] .min := by
  have form : gaugeSchema.form = .types [.number, .integer] := rfl
  have bound : ∀ coerce t, t = .number ∨ t = .integer →
      Suffix.min ∈ gaugeSchema.suffixes coerce t := by
    rintro coerce t (rfl | rfl) <;> simp [Keywords.suffixes, gaugeSchema, Zod.boundSuffix]
  obtain rfl | rfl : j = 0 ∨ j = 1 := by omega
  · exact .schema (.limit (.type form rfl (bound _ _ (.inl rfl))))
  · exact .schema (.limit (.type form rfl (bound _ _ (.inr rfl))))

theorem CommandLine.registry_run_exports_gauge :
    ∃ (report : Report) (r : Run) (f : GeneratedFile) (exports : List Export) (rest : String),
      registry.run gauge gaugeTarget = .ok report ∧ report.files = [f] ∧
      f.content = r.state.banner ++ rest ∧ Carries (exports.map Export.head) rest ∧
      ¬ (exports.map Export.name).Nodup := by
  obtain ⟨e, built, tasks⟩ := gauge_endpoints
  have starts : (gaugeRun e).Starts registry gauge :=
    { backend := rfl, emitter := rfl, resolved := gauge_resolve, endpoints := built,
      distinct := rfl }
  have run := Run.run_eq_ok.mpr ⟨_, starts, rfl, rfl⟩
  obtain ⟨r, ⟨begun, target⟩, files⟩ := registry_run_exports run
  cases begun.unique starts target
  obtain ⟨p, places, declarers⟩ := gaugeRun_declarers tasks
  rw [places] at files
  obtain ⟨f, last, ⟨_, exports, rest, content, carries, _, distinct⟩, none, one⟩ :=
    List.forall₂_cons_left_iff.mp files
  cases none
  refine ⟨_, _, f, exports, rest, run, one, content, carries, fun nodup => ?_⟩
  have unambiguous := distinct.mp nodup
  rw [declarers] at unambiguous
  have one : ((gaugeRun e).taskDeclarer gaugeTask).hoists ([] ++ [.type 0]) .min :=
    gaugeRun_hoists e (by decide)
  have two : ((gaugeRun e).taskDeclarer gaugeTask).hoists ([] ++ [.type 1]) .min :=
    gaugeRun_hoists e (by decide)
  exact types_ambiguous (i := 0) rfl one two Nat.zero_ne_one unambiguous

end TypedClients
