import TypedClients.Client.Fetch
import TypedClients.Proofs.Pointer
import TypedClients.Proofs.Signatures
import TypedClients.Proofs.VariantNames
import TypedClients.Zod.Backend

namespace TypedClients

open Text Name

/-- What the name of a response type says besides its operation: the status, and the content type
where there are several. -/
def Variant.EndsIn (v : Variant) (ending : String) : Prop :=
  ending = statusPart v.status ∨ ending = statusPart v.status ++ contentTypeSuffix v.contentType

theorem Variant.EndsIn.leading {v : Variant} {ending : String} (h : v.EndsIn ending) :
    Leading ending.toList := by
  obtain ⟨c, rest, part, letter⟩ := statusPart_head v.status
  rcases h with rfl | rfl
  · rw [part]
    exact .of_cons letter _
  · rw [String.toList_append, part]
    exact .of_cons letter _

theorem responseVariants_typeName {operation status : String} {r : Response} {v : Variant}
    (mem : v ∈ responseVariants operation status r) :
    ∃ ending, v.EndsIn ending ∧ v.typeName = (ofText operation).pascal ++ ending := by
  unfold responseVariants at mem
  dsimp only at mem
  split at mem
  · cases List.mem_singleton.mp mem
    exact ⟨_, .inl rfl, (ofResponse_eq _ _ _).trans (by simp)⟩
  · obtain ⟨c, _, rfl⟩ := List.mem_map.mp mem
    dsimp only
    split
    · exact ⟨_, .inr rfl, ofResponse_eq _ _ _⟩
    · exact ⟨_, .inl rfl, (ofResponse_eq _ _ _).trans (by simp)⟩

theorem Responses.build_typeName {operation : String}
    {responses : List (String × Referenced Response)} {v : Variant}
    (mem : v ∈ (build operation responses).variants) :
    ∃ ending, v.EndsIn ending ∧ v.typeName = (ofText operation).pascal ++ ending := by
  have declared : ∀ v ∈ declaredVariants operation responses,
      ∃ ending, v.EndsIn ending ∧ v.typeName = (ofText operation).pascal ++ ending := by
    intro v mem
    rw [declaredVariants_eq] at mem
    obtain ⟨d, _, own⟩ := List.mem_flatMap.mp mem
    exact responseVariants_typeName own
  rcases List.mem_append.mp mem with mem | mem
  · rw [build_success] at mem
    split at mem
    · exact declared v (List.mem_filter.mp mem).1
    · cases List.mem_singleton.mp mem
      exact ⟨statusPart "default", .inl rfl, (ofResponse_eq _ _ _).trans (by simp)⟩
  · rw [build_errors] at mem
    exact declared v (List.mem_filter.mp mem).1

namespace Endpoint

variable {e : Endpoint}

theorem responseTypeName_eq_iff {ending : String} {v : Variant}
    (typeName : v.typeName = e.name.reread ++ ending) :
    Client.responseTypeName e v = e.name.camel ++ "Response" ++ ending ↔
      e.name.reread = e.name.pascal := by
  unfold Client.responseTypeName
  rw [String.append_right_inj, typeName]
  constructor
  · intro same
    cases cut : afterLead? e.name.pascal (e.name.reread ++ ending) with
    | some rest =>
      rw [cut, Option.getD_some] at same
      rw [afterLead?_eq_some, same] at cut
      exact (String.append_left_inj _).mp cut
    | none =>
      rw [cut, Option.getD_none] at same
      have empty : e.name.reread = "" :=
        (String.append_left_inj ending).mp (same.trans String.empty_append.symm)
      exact absurd empty (pascal_ne_empty _)
  · intro same
    rw [same, afterLead?_append]
    rfl

def validated (e : Endpoint) : List Variant := e.response.success.filter (·.schema.isSome)

theorem responseTasks_names (several : e.validated.length ≠ 1) :
    (Zod.responseTasks e).map (·.name) = e.validated.map (Client.responseTypeName e) := by
  have listed : ∀ vs : List Variant,
      (vs.filterMap fun v => v.schema.map fun s => (v, s)).map Prod.fst =
        vs.filter (·.schema.isSome) := by
    intro vs
    induction vs with
    | nil => rfl
    | cons v rest ih => cases schema : v.schema <;> simp [schema, ih]
  have subjects := listed e.response.success
  have many : ¬(e.response.success.filterMap fun v => v.schema.map fun s => (v, s)).length = 1 := by
    rwa [← List.length_map (f := Prod.fst), subjects]
  unfold Zod.responseTasks validated
  rw [← subjects]
  simp only [many, if_false, List.map_map]
  rfl

end Endpoint

/-- The name of a response type holds that of its operation as it reads a second time. Types and
validators are named after the operation, the response and the ending alone just where that is what
it was at first; for a name in ASCII, where all capitals of the function's name are legible. -/
theorem buildEndpoints_responseNames {resolved : Resolved} {target : Target}
    {endpoints : List Endpoint} (built : buildEndpoints resolved target = .ok endpoints)
    {e : Endpoint} (mem : e ∈ endpoints) :
    ∃ item op, (e.route, item, e.verb, op) ∈ selectedOperations target resolved.document.paths ∧
      e.name = ofText (functionSource target e.verb e.route op) ∧
      (∀ v ∈ e.response.variants, ∃ ending, v.EndsIn ending ∧
        v.typeName = e.name.reread ++ ending ∧
        (e.name.pascal.toList <+: v.typeName.toList ↔ e.name.reread = e.name.pascal) ∧
        (Client.responseTypeName e v = e.name.camel ++ "Response" ++ ending ↔
          e.name.reread = e.name.pascal)) ∧
      (e.validated.length ≠ 1 →
        (Zod.responseTasks e).map (·.name) = e.validated.map (Client.responseTypeName e)) ∧
      (Ascii (functionSource target e.verb e.route op).toList →
        (e.name.reread = e.name.pascal ↔ legible e.name.camel.toList = true)) := by
  obtain ⟨item, op, selected, run⟩ := buildEndpoints_selected built mem
  obtain ⟨name, _, _⟩ := Endpoint.build_parts run
  have response := Endpoint.build_response run
  refine ⟨item, op, selected, name, fun v listed => ?_, Endpoint.responseTasks_names,
    fun ascii => ?_⟩
  · rw [response] at listed
    obtain ⟨ending, ends, typeName⟩ := Responses.build_typeName listed
    refine ⟨ending, ends, typeName, ?_, Endpoint.responseTypeName_eq_iff typeName⟩
    rw [typeName]
    have front := pascal_prefix_reread_iff (functionSource target e.verb e.route op) ends.leading
    rwa [← name] at front
  · rw [name]
    exact reread_eq_iff_legible ascii

def tile : Operation where
  operationId := some "get-tile-z-x-y"
  responses := [("200", .item { description := "ok" })]

def tiles : Document where
  openapi := "3.0.3"
  info := { title := "Tiles", version := "1" }
  paths := [("/tiles/\x7bz\x7d/\x7bx\x7d/\x7by\x7d", { operations := [(.get, tile)] })]

theorem tiles_endpoints : ∃ e v, buildEndpoints ⟨tiles, ⟨[]⟩⟩ {} = .ok [e] ∧
    e.response.variants = [v] := ⟨_, _, rfl, rfl⟩

theorem buildEndpoints_responseNames_tiles :
    ∃ e v, buildEndpoints ⟨tiles, ⟨[]⟩⟩ {} = .ok [e] ∧ e.response.variants = [v] ∧
      ¬e.name.pascal.toList <+: v.typeName.toList ∧
        ∃ ending, v.EndsIn ending ∧
          Client.responseTypeName e v ≠ e.name.camel ++ "Response" ++ ending := by
  obtain ⟨e, v, built, variants⟩ := tiles_endpoints
  obtain ⟨item, op, selected, name, names, _, exactly⟩ :=
    buildEndpoints_responseNames built List.mem_cons_self
  have own : op = tile := congrArg (fun o => o.2.2.2)
    (List.mem_singleton.mp (show _ ∈ [_] from selected))
  have source : functionSource {} e.verb e.route op = "get-tile-z-x-y" := by
    rw [own]
    rfl
  have camel : e.name.camel = "getTileZXY" := by
    rw [name, source]
    decide +kernel
  have ascii : Ascii "get-tile-z-x-y".toList := List.all_eq_true.mp (by decide)
  have changed : e.name.reread ≠ e.name.pascal := by
    rw [source] at exactly
    rw [ne_eq, exactly ascii, camel]
    decide
  obtain ⟨ending, ends, _, front, response⟩ := names v (by rw [variants]; exact List.mem_cons_self)
  exact ⟨e, v, built, variants, fun given => changed (front.mp given), ending, ends,
    fun given => changed (response.mp given)⟩

end TypedClients
