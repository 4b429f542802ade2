import TypedClients.Client.Request
import TypedClients.Proofs.Arguments
import TypedClients.Proofs.Pointer
import TypedClients.Proofs.Specifiers

namespace TypedClients

inductive RoutePiece where
  | letter (c : Char)
  | hole (name : String)

namespace RoutePiece

def source : RoutePiece → List Char
  | .letter c => [c]
  | .hole name => '{' :: name.toList ++ ['}']

def write : RoutePiece → List Char
  | .letter c => [c]
  | .hole name => '$' :: '{' :: (camelOf name).toList ++ ['}']

def hole? : RoutePiece → Option String
  | .letter _ => none
  | .hole name => some name

end RoutePiece

def routePieces : Option (List Char) → List Char → List RoutePiece
  | none, [] => []
  | some name, [] => .letter '{' :: name.reverse.map .letter
  | none, c :: rest =>
    if c = '{' then routePieces (some []) rest else .letter c :: routePieces none rest
  | some name, c :: rest =>
    if c = '}' then .hole (String.ofList name.reverse) :: routePieces none rest
    else routePieces (some (c :: name)) rest

def holesIn (cs : List Char) : List String := (routePieces none cs).filterMap RoutePiece.hole?

def holes (route : String) : List String := holesIn route.toList

theorem flatMap_letter (f : RoutePiece → List Char) (plain : ∀ c, f (.letter c) = [c])
    (cs : List Char) : (cs.map RoutePiece.letter).flatMap f = cs := by
  induction cs with
  | nil => rfl
  | cons c rest ih => rw [List.map_cons, List.flatMap_cons, plain, ih]; rfl

theorem routePieces_source (inside : Option (List Char)) (cs : List Char) :
    (routePieces inside cs).flatMap RoutePiece.source =
      ((inside.map fun name => '{' :: name.reverse).getD []) ++ cs := by
  fun_induction routePieces inside cs with
  | case1 => rfl
  | case2 name =>
    rw [List.flatMap_cons, flatMap_letter _ fun _ => rfl]
    simp [RoutePiece.source]
  | case3 rest ih => exact ih
  | case4 c rest other ih => rw [List.flatMap_cons, ih]; rfl
  | case5 name rest ih =>
    rw [List.flatMap_cons, ih]
    simp [RoutePiece.source]
  | case6 name c rest other ih =>
    rw [ih]
    simp

namespace Client

variable {params : List Param} {e : Endpoint}

theorem placeholderName_eq (spelled : ∀ p ∈ params, p.name = Name.ofText p.wire) (name : String) :
    placeholderName params name = camelOf name := by
  unfold placeholderName
  split
  · rename_i p found
    have wire : p.wire = name := by simpa using List.find?_some found
    rw [spelled p (List.mem_of_find?_eq_some found), wire, camelOf]
  · rfl

theorem routeChars_eq (spelled : ∀ p ∈ params, p.name = Name.ofText p.wire)
    (inside : Option (List Char)) (cs : List Char) :
    routeChars params inside cs = (routePieces inside cs).flatMap RoutePiece.write := by
  fun_induction routePieces inside cs with
  | case1 => rfl
  | case2 name =>
    rw [List.flatMap_cons, flatMap_letter _ fun _ => rfl]
    rfl
  | case3 rest ih => rw [routeChars, if_pos rfl, ih]
  | case4 c rest other ih => rw [routeChars, if_neg other, ih]; rfl
  | case5 name rest ih =>
    rw [routeChars, if_pos rfl, ih, placeholderName_eq spelled]
    simp [RoutePiece.write]
  | case6 name c rest other ih => rw [routeChars, if_neg other, ih]

end Client

/-- A segment is a placeholder as a whole, or it has none. -/
def PlainSegment (segment : List Char) : Prop :=
  '{' ∉ segment ∨ ∃ name, segment = '{' :: name ++ ['}'] ∧ '}' ∉ name

theorem holesIn_text {cs : List Char} (plain : '{' ∉ cs) (tail : List Char) :
    holesIn (cs ++ tail) = holesIn tail := by
  induction cs with
  | nil => rfl
  | cons c rest ih =>
    have other : c ≠ '{' := fun same => plain (same ▸ List.mem_cons_self)
    have later := ih fun mem => plain (List.mem_cons_of_mem _ mem)
    unfold holesIn at later ⊢
    rw [List.cons_append, routePieces, if_neg other, List.filterMap_cons_none rfl, later]

theorem routePieces_closed {name : List Char} (clean : '}' ∉ name) (before tail : List Char) :
    routePieces (some before) (name ++ '}' :: tail) =
      .hole (String.ofList (before.reverse ++ name)) :: routePieces none tail := by
  induction name generalizing before with
  | nil => simp [routePieces]
  | cons c rest ih =>
    have other : c ≠ '}' := fun same => clean (same ▸ List.mem_cons_self)
    have later := ih (fun mem => clean (List.mem_cons_of_mem _ mem)) (c :: before)
    rw [List.cons_append, routePieces, if_neg other, later]
    simp

theorem placeholder?_text {segment : List Char} (plain : '{' ∉ segment) :
    placeholder? (String.ofList segment) = none := by
  have lead : Text.afterLead? "\x7b" (String.ofList segment) = none := by
    cases found : Text.afterLead? "\x7b" (String.ofList segment) with
    | none => rfl
    | some rest =>
      have whole := congrArg String.toList (Text.eq_append_of_afterLead? found)
      rw [String.toList_ofList, String.toList_append] at whole
      exact absurd (whole ▸ List.mem_cons_self) plain
  unfold placeholder?
  rw [lead]
  rfl

theorem placeholder?_whole (name : List Char) :
    placeholder? (String.ofList ('{' :: name ++ ['}'])) = some (String.ofList name) := by
  have whole : String.ofList ('{' :: name ++ ['}']) = "\x7b" ++ (String.ofList name ++ "\x7d") := by
    apply String.toList_injective
    simp
  unfold placeholder?
  rw [whole, Text.afterLead?_append, Option.bind_some, beforeTail?_append]

theorem holesIn_segment {segment : List Char} (plain : PlainSegment segment) (tail : List Char) :
    holesIn (segment ++ tail) =
      (placeholder? (String.ofList segment)).toList ++ holesIn tail := by
  rcases plain with plain | ⟨name, rfl, clean⟩
  · rw [holesIn_text plain, placeholder?_text plain]
    rfl
  · have closed := routePieces_closed clean [] tail
    rw [placeholder?_whole]
    unfold holesIn
    rw [List.append_assoc, List.cons_append, routePieces, if_pos rfl]
    simp only [List.singleton_append, closed]
    rfl

theorem holesIn_parts (part cs : List Char)
    (plain : ∀ segment ∈ Text.partsFrom (· == '/') part cs, PlainSegment segment) :
    holesIn (part.reverse ++ cs) =
      ((Text.partsFrom (· == '/') part cs).map String.ofList).filterMap placeholder? := by
  -- What is read of a segment is kept in reverse: a slash closes it, anything else joins it.
  induction cs generalizing part with
  | nil =>
    have last := holesIn_segment (plain part.reverse List.mem_cons_self) []
    rw [last]
    show _ = [String.ofList part.reverse].filterMap placeholder?
    cases h : placeholder? (String.ofList part.reverse) <;> simp [h, holesIn, routePieces]
  | cons c rest ih =>
    rw [Text.partsFrom] at plain ⊢
    split
    · rename_i slash
      rw [if_pos slash] at plain
      have same : c = '/' := by simpa using slash
      subst same
      have later := ih [] fun segment mem => plain segment (List.mem_cons_of_mem _ mem)
      have step : holesIn (['/'] ++ rest) = holesIn rest := holesIn_text (by decide) rest
      rw [holesIn_segment (plain _ List.mem_cons_self), ← List.singleton_append, step]
      rw [List.reverse_nil, List.nil_append] at later
      rw [later, List.map_cons, List.filterMap_cons]
      cases placeholder? (String.ofList part.reverse) <;> rfl
    · rename_i other
      rw [if_neg other] at plain
      have longer := ih (c :: part) plain
      rw [List.reverse_cons, List.append_assoc] at longer
      exact longer

theorem holes_of_plain {route : String}
    (plain : ∀ segment ∈ Text.splitAt '/' route, PlainSegment segment.toList) :
    holes route = placeholders route := by
  refine holesIn_parts [] route.toList fun segment mem => ?_
  have whole := plain (String.ofList segment) (List.mem_map_of_mem mem)
  rwa [String.toList_ofList] at whole

def Endpoint.identifiers (e : Endpoint) : List String :=
  (holes e.route).map camelOf

def Endpoint.pathArguments (e : Endpoint) : List String :=
  (e.arguments.filter fun a => a.kind == .pathParam).map (·.name)

section

variable {arena : Arena} {target : Target} {route : String} {item : PathItem} {verb : Verb}
  {op : Operation} {e : Endpoint}

theorem Endpoint.mem_pathArguments
    (h : build arena target route item.parameters verb op = .ok e) {i : String} :
    i ∈ e.pathArguments ↔ ∃ name ∈ pathNames item op e.route, camelOf name = i := by
  have arguments : i ∈ e.pathArguments ↔ i ∈ e.pathParams.map (·.name.camel) := by
    obtain ⟨_, _, made⟩ := build_parts h
    rw [← buildArguments_pathParams e.body e.queryParams e.headers, ← made]
    simp [pathArguments, and_assoc]
  have spelled := build_spelled h
  rw [arguments, List.mem_map]
  constructor
  · rintro ⟨p, listed, rfl⟩
    refine ⟨p.wire, (mem_wires h).mp (List.mem_map_of_mem listed), ?_⟩
    rw [spelled p listed, camelOf]
  · rintro ⟨name, known, rfl⟩
    obtain ⟨p, listed, rfl⟩ := List.mem_map.mp ((mem_wires h).mpr known)
    exact ⟨p, listed, by rw [spelled p listed, camelOf]⟩

theorem Endpoint.identifiers_pathArguments
    (h : build arena target route item.parameters verb op = .ok e) :
    (∀ i ∈ e.identifiers, i ∈ e.pathArguments) ↔
      ∀ name ∈ holes e.route,
        ∃ other ∈ pathNames item op e.route, camelOf other = camelOf name := by
  simp only [mem_pathArguments h]
  unfold identifiers
  exact List.forall_mem_map

theorem Endpoint.undeclared_identifiers
    (h : build arena target route item.parameters verb op = .ok e) :
    (∀ p ∈ e.pathParams, p.wire ∉ declaredNames item op → p.name.camel ∈ e.identifiers) ↔
      ∀ name ∈ placeholders e.route, name ∉ declaredNames item op → ∃ other ∈ holes e.route,
        camelOf other = camelOf name := by
  have spelled := build_spelled h
  constructor
  · intro all name listed undeclared
    obtain ⟨p, mem, rfl⟩ := List.mem_map.mp ((mem_wires h).mpr (List.mem_append_right _ listed))
    have inside := all p mem undeclared
    rw [spelled p mem] at inside
    exact List.mem_map.mp inside
  · intro all p mem undeclared
    have known := List.mem_append.mp ((mem_wires h).mp (List.mem_map_of_mem mem))
    have listed := known.resolve_left undeclared
    rw [spelled p mem]
    exact List.mem_map.mpr (all p.wire listed undeclared)

end

/-- The text of a URL and the signature beside it agree just where the two readings of the route
do, up to names that become the same identifier; on plain routes they always do. -/
theorem buildEndpoints_urls {resolved : Resolved} {target : Target} {endpoints : List Endpoint}
    (built : buildEndpoints resolved target = .ok endpoints) {e : Endpoint} (mem : e ∈ endpoints) :
    ∃ item op, (e.route, item, e.verb, op) ∈ selectedOperations target resolved.document.paths ∧
      e.route.toList = (routePieces none e.route.toList).flatMap RoutePiece.source ∧
      (∀ base, Client.urlText e base =
        String.ofList (((base.map fun b => Text.trimEnd (· == '/') b.toList).getD []) ++
          (routePieces none e.route.toList).flatMap RoutePiece.write)) ∧
      ((∀ i ∈ e.identifiers, i ∈ e.pathArguments) ↔ ∀ name ∈ holes e.route,
        ∃ other ∈ pathNames item op e.route, camelOf other = camelOf name) ∧
      ((∀ p ∈ e.pathParams, p.wire ∉ declaredNames item op → p.name.camel ∈ e.identifiers) ↔
        ∀ name ∈ placeholders e.route, name ∉ declaredNames item op → ∃ other ∈ holes e.route,
          camelOf other = camelOf name) ∧
      ((∀ segment ∈ Text.splitAt '/' e.route, PlainSegment segment.toList) →
        (∀ i ∈ e.identifiers, i ∈ e.pathArguments) ∧
          ∀ p ∈ e.pathParams, p.wire ∉ declaredNames item op → p.name.camel ∈ e.identifiers) := by
  obtain ⟨item, op, selected, run⟩ := buildEndpoints_selected built mem
  have spelled := Endpoint.build_spelled run
  have agree := Endpoint.identifiers_pathArguments run
  have added := Endpoint.undeclared_identifiers run
  refine ⟨item, op, selected, (routePieces_source none _).symm, fun base => ?_, agree, added,
    fun plain => ?_⟩
  · unfold Client.urlText
    rw [Client.routeChars_eq spelled]
  · have same := holes_of_plain plain
    rw [agree, added, same]
    constructor
    · intro name listed
      exact ⟨name, List.mem_append_right _ listed, rfl⟩
    · intro name listed _
      exact ⟨name, listed, rfl⟩

def filesRoute : String := "/files/\x7bname\x7d.json"

def filesDoc : Document where
  openapi := "3.0.3"
  info := { title := "Files", version := "1" }
  paths := [(filesRoute, { operations := [(.get, {})] })]

theorem filesDoc_endpoints :
    ∃ e, buildEndpoints ⟨filesDoc, ⟨[]⟩⟩ {} = .ok [e] ∧ e.route = filesRoute := ⟨_, rfl, rfl⟩

theorem buildEndpoints_urls_files : ∃ e, buildEndpoints ⟨filesDoc, ⟨[]⟩⟩ {} = .ok [e] ∧
    e.route = filesRoute ∧ e.identifiers = ["name"] ∧
      ¬∀ i ∈ e.identifiers, i ∈ e.pathArguments := by
  have camel : camelOf "name" = "name" := by decide
  have hole : holes filesRoute = ["name"] := by decide
  have bare : placeholders filesRoute = [] := by decide
  obtain ⟨e, built, route⟩ := filesDoc_endpoints
  refine ⟨e, built, route, ?_, fun all => ?_⟩
  · unfold Endpoint.identifiers
    rw [route, hole, List.map_singleton, camel]
  · obtain ⟨item, op, selected, _, _, agree, _⟩ := buildEndpoints_urls built List.mem_cons_self
    have same := List.mem_singleton.mp (show _ ∈ [_] from selected)
    have shared : item.parameters = [] := congrArg (fun x => x.2.1.parameters) same
    have own : op.parameters = [] := congrArg (fun x => x.2.2.2.parameters) same
    have mentioned : "name" ∈ holes e.route := by
      rw [route, hole]
      exact List.mem_cons_self
    obtain ⟨other, known, _⟩ := agree.mp all "name" mentioned
    rw [pathNames, declaredNames, shared, own, route, bare] at known
    cases known

end TypedClients
