import TypedClients.Client.Request
import TypedClients.Proofs.Arguments
import TypedClients.Proofs.Identifiers

namespace TypedClients

/-- The words that no binding of a module may have as its name. -/
def reservedWords : List String :=
  ["break", "case", "catch", "class", "const", "continue", "debugger", "default", "delete", "do",
   "else", "enum", "export", "extends", "false", "finally", "for", "function", "if", "import", "in",
   "instanceof", "new", "null", "return", "super", "switch", "this", "throw", "true", "try",
   "typeof", "var", "void", "while", "with", "implements", "interface", "let", "package", "private",
   "protected", "public", "static", "yield", "await"]

namespace Text

def IsSmall (c : Char) : Prop := 97 ≤ c.toNat ∧ c.toNat ≤ 122

instance : DecidablePred IsSmall := fun c =>
  inferInstanceAs (Decidable (97 ≤ c.toNat ∧ c.toNat ≤ 122))

theorem not_isSmall_ofNat {n : Nat} (h : n < 97 ∨ 122 < n) : ¬IsSmall (Char.ofNat n) := by
  rintro ⟨low, high⟩
  rcases ofNat_code n with same | zero
  · omega
  · omega

def AvoidsSmall (table : List (Nat × Nat × Nat × Int)) : Prop :=
  ∀ x ∈ table, (x.2.1 : Int) + x.2.2.2 < 97 ∨ 122 < (x.1 : Int) + x.2.2.2

instance (table : List (Nat × Nat × Nat × Int)) : Decidable (AvoidsSmall table) :=
  inferInstanceAs
    (Decidable (∀ x ∈ table, (x.2.1 : Int) + x.2.2.2 < 97 ∨ 122 < (x.1 : Int) + x.2.2.2))

theorem shift_not_isSmall {table : List (Nat × Nat × Nat × Int)} (avoids : AvoidsSmall table)
    {c : Char} (h : ¬IsSmall c) : ¬IsSmall (shift table c) := by
  unfold shift
  split
  · rename_i first last step d found
    have entry := avoids _ (List.mem_of_find?_eq_some found)
    have bound := List.find?_some found
    simp only [Bool.and_eq_true, decide_eq_true_eq] at bound entry
    apply not_isSmall_ofNat
    omega
  · exact h

theorem capitalForm_head (c : Char) : ∃ d rest, capitalForm c = d :: rest ∧ ¬IsSmall d := by
  unfold capitalForm
  split
  · rename_i ascii
    have raised : ¬IsSmall c.toUpper :=
      ascii_forall (P := fun c => ¬IsSmall c.toUpper) (by decide +kernel) ascii
    exact ⟨_, [], rfl, raised⟩
  · rename_i other
    split
    · rename_i codes found
      have avoids : ∀ entry ∈ upperExpansions,
          ∃ n ∈ entry.2.head?, n < 97 ∨ 122 < n := by decide +kernel
      obtain ⟨before, after, whole, _⟩ := List.lookup_eq_some_iff.mp found
      have listed : (c.toNat, codes) ∈ upperExpansions := by
        rw [whole]
        exact List.mem_append_right _ List.mem_cons_self
      obtain ⟨n, first, code⟩ := avoids _ listed
      obtain ⟨rest, rfl⟩ := List.head?_eq_some_iff.mp first
      exact ⟨_, _, rfl, not_isSmall_ofNat code⟩
    · have avoids : AvoidsSmall upperShifts := by decide +kernel
      have high : ¬IsSmall c := by
        rintro ⟨_, below⟩
        exact other (decide_eq_true (by omega))
      exact ⟨_, [], rfl, shift_not_isSmall avoids high⟩

theorem capitalWord_head {w : List Char} (h : w ≠ []) : ∃ d ∈ capitalWord w, ¬IsSmall d := by
  cases w with
  | nil => exact absurd rfl h
  | cons c rest =>
    obtain ⟨d, more, form, capital⟩ := capitalForm_head c
    refine ⟨d, ?_, capital⟩
    rw [capitalWord, form]
    exact List.mem_cons_self

theorem camel_of_word {s w : List Char} (h : words s = [w]) : camel s = smallWord w := by
  unfold camel
  rw [h]
  exact List.append_nil _

theorem word_of_camel {s : List Char} (some_word : words s ≠ [])
    (small : ∀ c ∈ camel s, IsSmall c) : ∃ w, words s = [w] := by
  cases split_up : words s with
  | nil => exact absurd split_up some_word
  | cons first rest =>
    cases rest with
    | nil => exact ⟨first, rfl⟩
    | cons second more =>
      have mem : second ∈ words s := by
        rw [split_up]
        exact List.mem_cons_of_mem _ List.mem_cons_self
      obtain ⟨d, inside, capital⟩ := capitalWord_head (words_chars mem).1
      refine absurd (small d ?_) capital
      unfold camel
      rw [split_up]
      exact List.mem_append_right _
        (List.mem_flatMap.mpr ⟨second, List.mem_cons_self, inside⟩)

end Text

open Text

theorem reservedWords_small : ∀ word ∈ reservedWords, ∀ c ∈ word.toList, IsSmall c := by
  have all : (reservedWords.all fun word =>
      word.toList.all fun c => decide (IsSmall c)) = true := by
    decide +kernel
  intro word listed c inside
  exact of_decide_eq_true (List.all_eq_true.mp (List.all_eq_true.mp all word listed) c inside)

/-- The name is a single word that is reserved in small letters. -/
def SpellsReserved (source : String) : Prop :=
  ∃ w, words source.toList = [w] ∧ String.ofList (smallWord w) ∈ reservedWords

theorem guardDigit_eq {cs : List Char} (small : ∀ c ∈ Name.guardDigit cs, IsSmall c) :
    Name.guardDigit cs = cs := by
  unfold Name.guardDigit at small ⊢
  split
  · rename_i digit
    rw [if_pos digit] at small
    exact absurd (small '_' List.mem_cons_self) (by decide)
  · rfl

theorem guardDigit_of_small {cs : List Char} (small : ∀ c ∈ cs, IsSmall c) :
    Name.guardDigit cs = cs := by
  cases cs with
  | nil => rfl
  | cons c rest =>
    have letter : ¬c.isDigit = true := by
      intro digit
      have bounds : 48 ≤ c.toNat ∧ c.toNat ≤ 57 := by
        simpa [Char.isDigit, UInt32.le_iff_toNat_le] using digit
      have above := (small c List.mem_cons_self).1
      omega
    exact if_neg letter

theorem camel_mem_reservedWords {source : String} :
    (Name.ofText source).camel ∈ reservedWords ↔ SpellsReserved source := by
  unfold Name.ofText SpellsReserved
  split
  · rename_i none
    have empty : words source.toList = [] := by simpa using none
    rw [empty]
    constructor
    · intro reserved
      exact absurd (show "unnamed" ∈ reservedWords from reserved) (by decide)
    · rintro ⟨w, same, _⟩
      cases same
  · rename_i some_word
    have words_some : words source.toList ≠ [] := by simpa using some_word
    constructor
    · intro reserved
      -- No reserved word begins with the underscore that guards a digit.
      have small := reservedWords_small _ reserved
      rw [String.toList_ofList] at small
      have plain := guardDigit_eq small
      rw [plain] at small
      obtain ⟨w, single⟩ := word_of_camel words_some small
      refine ⟨w, single, ?_⟩
      rwa [plain, camel_of_word single] at reserved
    · rintro ⟨w, single, reserved⟩
      have small := reservedWords_small _ reserved
      rw [String.toList_ofList] at small
      rwa [camel_of_word single, guardDigit_of_small small]

namespace Endpoint

/-- Behind the arguments a signature has one for the options of the request. -/
def signatureNames (e : Endpoint) : List String := e.arguments.map (·.name) ++ ["options"]

def ownNames (e : Endpoint) : List String :=
  fixedNames e.body e.queryParams e.headers ++ ["options"]

theorem ownNames_nodup (e : Endpoint) : e.ownNames.Nodup := by
  unfold ownNames fixedNames groupNames
  split <;> split <;> split <;> decide

theorem ownNames_unreserved (e : Endpoint) : ∀ name ∈ e.ownNames, name ∉ reservedWords := by
  unfold ownNames fixedNames groupNames
  split <;> split <;> split <;> decide

variable {arena : Arena} {target : Target} {route : String} {verb : Verb} {op : Operation}
  {shared : List (Referenced Parameter)} {e : Endpoint}

theorem signatureNames_perm (h : build arena target route shared verb op = .ok e) :
    e.signatureNames.Perm ((wires e.pathParams).map camelOf ++ e.ownNames) := by
  have spelled : (wires e.pathParams).map camelOf = e.pathParams.map (·.name.camel) := by
    unfold wires
    rw [List.map_map]
    exact List.map_congr_left fun p mem => congrArg Name.camel (build_spelled h p mem).symm
  have names : (e.arguments.map (·.name)).Perm
      (e.pathParams.map (·.name.camel) ++ fixedNames e.body e.queryParams e.headers) := by
    obtain ⟨_, _, arguments⟩ := build_parts h
    rw [arguments]
    exact buildArguments_names _ _ _
  rw [spelled, ownNames, ← List.append_assoc]
  exact names.append_right _

theorem signatureNames_nodup_iff (h : build arena target route shared verb op = .ok e) :
    e.signatureNames.Nodup ↔
      (∀ a ∈ wires e.pathParams, ∀ b ∈ wires e.pathParams, camelOf a = camelOf b → a = b) ∧
        ∀ a ∈ wires e.pathParams, camelOf a ∉ e.ownNames := by
  rw [(signatureNames_perm h).nodup_iff, List.nodup_append']
  rw [List.nodup_map_iff_inj_on (nodup_wires h)]
  constructor
  · rintro ⟨distinct, _, apart⟩
    exact ⟨distinct, fun a mem own => apart (List.mem_map_of_mem mem) own⟩
  · rintro ⟨distinct, apart⟩
    refine ⟨distinct, e.ownNames_nodup, fun name mem own => ?_⟩
    obtain ⟨a, listed, rfl⟩ := List.mem_map.mp mem
    exact apart a listed own

theorem signatureNames_reserved_iff (h : build arena target route shared verb op = .ok e) :
    (∀ name ∈ e.signatureNames, name ∉ reservedWords) ↔
      ∀ a ∈ wires e.pathParams, ¬SpellsReserved a := by
  simp only [(signatureNames_perm h).mem_iff, List.mem_append]
  constructor
  · intro all a mem reserved
    exact all _ (.inl (List.mem_map_of_mem mem)) (camel_mem_reservedWords.mpr reserved)
  · rintro all name (mapped | own)
    · obtain ⟨a, mem, rfl⟩ := List.mem_map.mp mapped
      exact fun reserved => all a mem (camel_mem_reservedWords.mp reserved)
    · exact e.ownNames_unreserved name own

theorem argumentText_name (e : Endpoint) (a : Argument) : ∃ type,
    Client.argumentText e a = a.name ++ type ∧ ∃ s, type = ": " ++ s ∨ type = "?: " ++ s := by
  unfold Client.argumentText Client.optionalMark
  generalize a.kind = kind
  dsimp only
  cases a.required with
  | true =>
    exact ⟨_, (congrArg (· ++ _) String.append_assoc).trans String.append_assoc, _, .inl rfl⟩
  | false =>
    exact ⟨_, (congrArg (· ++ _) String.append_assoc).trans String.append_assoc, _, .inr rfl⟩

theorem signature_names (e : Endpoint) (target : Target) (optionsType : String) :
    ∃ types, types.length = e.signatureNames.length ∧
      (∀ t ∈ types, ∃ s, t = ": " ++ s ∨ t = "?: " ++ s) ∧
      (Client.Request.ofEndpoint e target).signature optionsType =
        Text.join ", " (List.zipWith (· ++ ·) e.signatureNames types) := by
  choose type written marked using argumentText_name e
  refine ⟨e.arguments.map type ++ ["?: " ++ optionsType], by simp [signatureNames], ?_, ?_⟩
  · intro t mem
    rcases List.mem_append.mp mem with argument | last
    · obtain ⟨a, _, rfl⟩ := List.mem_map.mp argument
      exact marked a
    · exact ⟨optionsType, .inr (List.mem_singleton.mp last)⟩
  · have arguments : e.arguments.map (Client.argumentText e) =
        List.zipWith (· ++ ·) (e.arguments.map (·.name)) (e.arguments.map type) := by
      rw [List.zipWith_map, List.zipWith_self]
      exact List.map_congr_left fun a _ => written a
    show Text.join ", "
      (e.arguments.map (Client.argumentText e) ++ ["options?: " ++ optionsType]) = _
    rw [signatureNames, List.zipWith_append (by simp), arguments]
    rfl

end Endpoint

/-- A function can be declared just where no two names of its path become the same identifier, none
becomes one of the names that the signature has besides, and neither a name of the path nor that of
the function is a reserved word in another spelling. -/
theorem buildEndpoints_signatures {resolved : Resolved} {target : Target}
    {endpoints : List Endpoint} (built : buildEndpoints resolved target = .ok endpoints)
    {e : Endpoint} (mem : e ∈ endpoints) :
    ∃ item op, (e.route, item, e.verb, op) ∈ selectedOperations target resolved.document.paths ∧
      (∀ optionsType, ∃ types, types.length = e.signatureNames.length ∧
        (∀ t ∈ types, ∃ s, t = ": " ++ s ∨ t = "?: " ++ s) ∧
        (Client.Request.ofEndpoint e target).signature optionsType =
          Text.join ", " (List.zipWith (· ++ ·) e.signatureNames types)) ∧
      (e.signatureNames.Nodup ↔
        (∀ a ∈ pathNames item op e.route, ∀ b ∈ pathNames item op e.route,
          camelOf a = camelOf b → a = b) ∧
        ∀ a ∈ pathNames item op e.route, camelOf a ∉ e.ownNames) ∧
      (((Client.Request.ofEndpoint e target).name ∉ reservedWords ∧
          ∀ name ∈ e.signatureNames, name ∉ reservedWords) ↔
        ¬SpellsReserved (functionSource target e.verb e.route op) ∧
          ∀ a ∈ pathNames item op e.route, ¬SpellsReserved a) := by
  obtain ⟨item, op, selected, run⟩ := buildEndpoints_selected built mem
  obtain ⟨name, _, _⟩ := Endpoint.build_parts run
  have distinct := Endpoint.signatureNames_nodup_iff run
  have reserved := Endpoint.signatureNames_reserved_iff run
  simp only [Endpoint.mem_wires run] at distinct reserved
  refine ⟨item, op, selected, e.signature_names target, distinct, ?_⟩
  rw [reserved]
  refine and_congr_left' ?_
  show e.name.camel ∉ reservedWords ↔ _
  rw [name, camel_mem_reservedWords]

def notesBody : RequestBody := { content := [("application/json", {})] }

def notesDoc : Document where
  openapi := "3.0.3"
  info := { title := "Notes", version := "1" }
  paths := [("/", { operations := [(.delete, {})] }),
    ("/\x7bbody\x7d", { operations := [(.put, { requestBody := some (.item notesBody) })] })]

theorem notesDoc_endpoints : ∃ drop save, buildEndpoints ⟨notesDoc, ⟨[]⟩⟩ {} = .ok [drop, save] ∧
    (drop.route = "/" ∧ drop.verb = .delete) ∧
      save.route = "/\x7bbody\x7d" ∧ save.body.isSome = true := ⟨_, _, rfl, ⟨rfl, rfl⟩, rfl, rfl⟩

theorem delete_spellsReserved : SpellsReserved "delete" := ⟨"delete".toList, by decide, by decide⟩

theorem buildEndpoints_signatures_notes :
    ∃ drop save, buildEndpoints ⟨notesDoc, ⟨[]⟩⟩ {} = .ok [drop, save] ∧
      ¬((Client.Request.ofEndpoint drop {}).name ∉ reservedWords ∧
        ∀ name ∈ drop.signatureNames, name ∉ reservedWords) ∧ ¬save.signatureNames.Nodup := by
  obtain ⟨drop, save, built, ⟨root, verb⟩, route, body⟩ := notesDoc_endpoints
  refine ⟨drop, save, built, fun unreserved => ?_, fun distinct => ?_⟩
  · obtain ⟨item, op, selected, _, _, spelled⟩ :=
      buildEndpoints_signatures built List.mem_cons_self
    have unnamed : op.operationId = none := by
      rcases List.mem_cons.mp (show _ ∈ _ :: [_] from selected) with first | second
      · exact congrArg (fun x => x.2.2.2.operationId) first
      · exact congrArg (fun x => x.2.2.2.operationId) (List.mem_singleton.mp second)
    have source : functionSource {} drop.verb drop.route op = "delete" := by
      rw [root, verb, functionSource, rawName, unnamed]
      decide
    have plain := (spelled.mp unreserved).1
    rw [source] at plain
    exact plain delete_spellsReserved
  · obtain ⟨item, op, _, _, names, _⟩ :=
      buildEndpoints_signatures built (List.mem_cons_of_mem _ List.mem_cons_self)
    have own : "body" ∈ save.ownNames := by
      simp [Endpoint.ownNames, fixedNames, body]
    have mentioned : "body" ∈ pathNames item op save.route := by
      rw [route]
      exact List.mem_append_right _ (by decide)
    exact (names.mp distinct).2 "body" mentioned (show camelOf "body" ∈ _ from own)

end TypedClients
