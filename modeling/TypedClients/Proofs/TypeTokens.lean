import Mathlib.Data.List.Forall2
import TypedClients.Proofs.Composition
import TypedClients.Proofs.Recasing
import TypedClients.TypeScript.Text
import TypedClients.Types.Translate

namespace TypedClients.TypeScript

inductive Token where
  | word (text : String)
  | quoted (text : String)
  | mark (c : Char)
deriving DecidableEq

def marks : List Char :=
  ['|', '&', '(', ')', '[', ']', '\x7b', '\x7d', '<', '>', ',', ';', ':', '?']

def gaps : List Char := [' ', '\n', '\r', '\t']

def isWordChar (c : Char) : Bool := !('\'' :: marks ++ gaps).contains c

inductive Lexing where
  | between
  | word (text : List Char)
  | quoted (text : List Char)
  | escaped (text : List Char)

namespace Lexing

def start (c : Char) : List Token × Lexing :=
  if c = '\'' then ([], quoted [])
  else if marks.contains c then ([.mark c], between)
  else if gaps.contains c then ([], between)
  else ([], word [c])

def step : Lexing → Char → List Token × Lexing
  | between, c => start c
  | word w, c =>
    if isWordChar c then ([], word (w ++ [c]))
    else (.word (String.ofList w) :: (start c).1, (start c).2)
  | quoted w, c =>
    if c = '\\' then ([], escaped w)
    else if c = '\'' then ([.quoted (String.ofList w)], between)
    else ([], quoted (w ++ [c]))
  | escaped w, c => ([], quoted (w ++ [c]))

/-- A quotation that is never closed leaves a mark that no type has. -/
def finish : Lexing → List Token
  | between => []
  | word w => [.word (String.ofList w)]
  | _ => [.mark '\'']

end Lexing

def tokensFrom : Lexing → List Char → List Token
  | s, [] => s.finish
  | s, c :: rest => (s.step c).1 ++ tokensFrom (s.step c).2 rest

def tokens (text : String) : List Token := tokensFrom .between text.toList

def Apart (cs : List Char) : Prop := ∀ c ∈ cs.head?, isWordChar c = false

def IsWord (text : String) : Prop := text ≠ "" ∧ ∀ c ∈ text.toList, isWordChar c = true

instance (text : String) : Decidable (IsWord text) :=
  decidable_of_iff (text ≠ "" ∧ text.toList.all isWordChar = true) (by simp [IsWord])

theorem apart_nil : Apart [] := by simp [Apart]

theorem Apart.cons {c : Char} (h : isWordChar c = false) (cs : List Char) : Apart (c :: cs) := by
  simp [Apart, h]

theorem isWordChar_of {p : Char → Bool}
    (none : ('\'' :: marks ++ gaps).all (fun c => !p c) = true) {c : Char} (h : p c = true) :
    isWordChar c = true := by
  unfold isWordChar
  rw [Bool.not_eq_true', List.contains_eq_mem, decide_eq_false_iff_not]
  intro listed
  have absent : (!p c) = true := List.all_eq_true.mp none c listed
  rw [h] at absent
  cases absent

theorem isWordChar_of_alphanumeric {c : Char} (h : Text.isAlphanumeric c = true) :
    isWordChar c = true := isWordChar_of (by decide) h

theorem upperExpansions_wordChars : ∀ entry ∈ Text.upperExpansions, ∀ n ∈ entry.2,
    isWordChar (Char.ofNat n) = true := by decide +kernel

theorem capitalForm_wordChars {c : Char} (h : Text.isAlphanumeric c = true) :
    ∀ d ∈ Text.capitalForm c, isWordChar d = true := by
  unfold Text.capitalForm
  split
  · rename_i ascii
    have raised : Text.isAlphanumeric c = true → isWordChar c.toUpper = true :=
      Text.ascii_forall (P := fun c => Text.isAlphanumeric c = true → isWordChar c.toUpper = true)
        (by decide +kernel) ascii
    exact fun d mem => List.mem_singleton.mp mem ▸ raised h
  · split
    · rename_i codes found
      intro d mem
      obtain ⟨n, code, rfl⟩ := List.mem_map.mp mem
      exact upperExpansions_wordChars _ (Text.mem_upperExpansions found) n code
    · have shifted := Text.shift_alphanumeric Text.upperShifts_alphanumeric h
      exact fun d mem => List.mem_singleton.mp mem ▸ isWordChar_of_alphanumeric shifted

theorem smallForm_wordChars {c : Char} (h : Text.isAlphanumeric c = true) :
    ∀ d ∈ Text.smallForm c, isWordChar d = true := by
  unfold Text.smallForm
  split
  · rename_i ascii
    have lowered : Text.isAlphanumeric c = true → isWordChar c.toLower = true :=
      Text.ascii_forall (P := fun c => Text.isAlphanumeric c = true → isWordChar c.toLower = true)
        (by decide +kernel) ascii
    exact fun d mem => List.mem_singleton.mp mem ▸ lowered h
  · split
    · exact List.all_eq_true.mp (by decide)
    · have shifted := Text.shift_alphanumeric Text.lowerShifts_alphanumeric h
      exact fun d mem => List.mem_singleton.mp mem ▸ isWordChar_of_alphanumeric shifted

theorem smallWord_wordChars {w : List Char} (h : ∀ c ∈ w, Text.isAlphanumeric c = true) :
    ∀ d ∈ Text.smallWord w, isWordChar d = true := by
  fun_induction Text.smallWord w with
  | case1 => exact fun d mem => absurd mem List.not_mem_nil
  | case2 => exact List.all_eq_true.mp (by decide)
  | case3 c _ => exact smallForm_wordChars (h c List.mem_cons_self)
  | case4 c rest _ ih =>
    have first := smallForm_wordChars (h c List.mem_cons_self)
    have later := ih fun d mem => h d (List.mem_cons_of_mem _ mem)
    exact fun d mem => (List.mem_append.mp mem).elim (first d) (later d)

theorem capitalWord_wordChars {w : List Char} (h : ∀ c ∈ w, Text.isAlphanumeric c = true) :
    ∀ d ∈ Text.capitalWord w, isWordChar d = true := by
  cases w with
  | nil => exact nofun
  | cons c rest =>
    have first := capitalForm_wordChars (h c List.mem_cons_self)
    have later := smallWord_wordChars fun d mem => h d (List.mem_cons_of_mem _ mem)
    exact fun d mem => (List.mem_append.mp mem).elim (first d) (later d)

theorem pascal_isWord (source : String) : IsWord (Name.ofText source).pascal := by
  refine ⟨Name.pascal_ne_empty source, ?_⟩
  by_cases some_word : Text.words source.toList = []
  · have fallback : ∀ d ∈ "Unnamed".toList, isWordChar d = true :=
      List.all_eq_true.mp (by decide)
    rw [Name.ofText_of_no_words some_word]
    exact fallback
  · have letters : ∀ d ∈ Text.pascal source.toList, isWordChar d = true := by
      intro d mem
      obtain ⟨w, listed, inside⟩ := List.mem_flatMap.mp mem
      exact capitalWord_wordChars (Text.words_chars listed).2 d inside
    rw [Name.ofText_of_words some_word, String.toList_ofList]
    unfold Name.guardDigit
    split
    · exact fun d mem => (List.mem_cons.mp mem).elim (fun same => same ▸ by decide) (letters d)
    · exact letters

theorem refTypeName_isWord (path : String) : IsWord (refTypeName path) := pascal_isWord _

theorem start_wordChar {c : Char} (h : isWordChar c = true) :
    Lexing.start c = ([], .word [c]) := by
  simp only [isWordChar, List.contains_eq_mem, List.cons_append, List.mem_cons, List.mem_append,
    not_or, Bool.not_eq_true', decide_eq_false_iff_not] at h
  simp [Lexing.start, h.1, h.2.1, h.2.2]

theorem tokensFrom_wordEnd (w : List Char) {rest : List Char} (apart : Apart rest) :
    tokensFrom (.word w) rest = .word (String.ofList w) :: tokensFrom .between rest := by
  cases rest with
  | nil => rfl
  | cons c rest =>
    have ends : isWordChar c = false := apart c rfl
    simp [tokensFrom, Lexing.step, ends]

theorem tokensFrom_wordRest (w more : List Char) {rest : List Char} (apart : Apart rest)
    (inside : ∀ c ∈ more, isWordChar c = true) :
    tokensFrom (.word w) (more ++ rest) =
      .word (String.ofList (w ++ more)) :: tokensFrom .between rest := by
  induction more generalizing w with
  | nil => simpa using tokensFrom_wordEnd w apart
  | cons c more ih =>
    have goes : isWordChar c = true := inside c List.mem_cons_self
    have later := ih (w ++ [c]) fun d mem => inside d (List.mem_cons_of_mem _ mem)
    simpa [tokensFrom, Lexing.step, goes] using later

theorem tokensFrom_word {text : String} (word : IsWord text) {rest : List Char}
    (apart : Apart rest) :
    tokensFrom .between (text.toList ++ rest) = .word text :: tokensFrom .between rest := by
  obtain ⟨filled, inside⟩ := word
  have filled : text.toList ≠ [] := by simpa using filled
  obtain ⟨c, more, whole⟩ := List.exists_cons_of_ne_nil filled
  rw [whole] at inside
  have later := tokensFrom_wordRest [c] more apart
    fun d mem => inside d (List.mem_cons_of_mem _ mem)
  have same : String.ofList (c :: more) = text := by rw [← whole, String.ofList_toList]
  rw [whole]
  simpa [tokensFrom, Lexing.step, start_wordChar (inside c List.mem_cons_self), same] using later

theorem tokensFrom_quotedRest (w : List Char) (cs rest : List Char) (plain : '\\' ∉ cs) :
    tokensFrom (.quoted w) (escapeQuotesChars cs ++ '\'' :: rest) =
      .quoted (String.ofList (w ++ cs)) :: tokensFrom .between rest := by
  induction cs generalizing w with
  | nil => simp [escapeQuotesChars, tokensFrom, Lexing.step]
  | cons c cs ih =>
    have other : c ≠ '\\' := fun same => plain (same ▸ List.mem_cons_self)
    have later := ih (w ++ [c]) fun mem => plain (List.mem_cons_of_mem _ mem)
    by_cases quote : c.toNat = 39
    · have same : c = '\'' := Char.toNat_inj.mp quote
      subst same
      simpa [escapeQuotesChars, tokensFrom, Lexing.step] using later
    · have noQuote : c ≠ '\'' := by
        rintro rfl
        exact quote rfl
      simpa [escapeQuotesChars, quote, tokensFrom, Lexing.step, other, noQuote] using later

theorem tokensFrom_literalRest (w : List Char) (cs rest : List Char) :
    tokensFrom (.quoted w)
        (escapeQuotesChars (Text.replaceFrom ['\\'] ['\\', '\\'] 0 cs) ++ '\'' :: rest) =
      .quoted (String.ofList (w ++ cs)) :: tokensFrom .between rest := by
  induction cs generalizing w with
  | nil => simp [Text.replaceFrom, escapeQuotesChars, tokensFrom, Lexing.step]
  | cons c cs ih =>
    have later := ih (w ++ [c])
    by_cases backslash : c = '\\'
    · subst backslash
      simpa [Text.replaceFrom, escapeQuotesChars, tokensFrom, Lexing.step] using later
    · have other : ¬ ['\\'] <+: c :: cs := by simp [Ne.symm backslash]
      rw [Text.replaceFrom_cons other]
      by_cases quote : c.toNat = 39
      · have same : c = '\'' := Char.toNat_inj.mp quote
        subst same
        simpa [escapeQuotesChars, tokensFrom, Lexing.step] using later
      · have noQuote : c ≠ '\'' := by
          rintro rfl
          exact quote rfl
        simpa [escapeQuotesChars, quote, tokensFrom, Lexing.step, backslash, noQuote] using later

theorem tokensFrom_literal (value : String) (rest : List Char) :
    tokensFrom .between ((literal value).toList ++ rest) =
      .quoted value :: tokensFrom .between rest := by
  have inside := tokensFrom_literalRest [] value.toList rest
  rw [List.nil_append, String.ofList_toList] at inside
  have opened : (literal value).toList ++ rest = '\'' ::
      (escapeQuotesChars (Text.replaceFrom ['\\'] ['\\', '\\'] 0 value.toList) ++
        '\'' :: rest) := by
    simp [literal, singleQuoted, escapeQuotes, Text.replace]
  rw [opened]
  exact inside

def IsLegibleKey (name : String) : Prop := isIdentifier name = true ∨ '\\' ∉ name.toList

def keyToken (name : String) : Token := if isIdentifier name then .word name else .quoted name

theorem isIdentifier_isWord {name : String} (h : isIdentifier name = true) : IsWord name := by
  unfold isIdentifier at h
  split at h
  · cases h
  · rename_i c rest whole
    simp only [Bool.and_eq_true, List.all_eq_true] at h
    constructor
    · rintro rfl
      cases whole
    · intro d mem
      rw [whole] at mem
      rcases List.mem_cons.mp mem with rfl | mem
      · exact isWordChar_of (by decide) h.1
      · exact isWordChar_of (by decide) (h.2 d mem)

theorem tokensFrom_key {name : String} (legible : IsLegibleKey name) {rest : List Char}
    (apart : Apart rest) :
    tokensFrom .between ((propertyKey name).toList ++ rest) =
      keyToken name :: tokensFrom .between rest := by
  unfold propertyKey keyToken
  split
  · rename_i identifier
    exact tokensFrom_word (isIdentifier_isWord identifier) apart
  · rename_i quoted
    have plain := legible.resolve_left quoted
    have inside := tokensFrom_quotedRest [] name.toList rest plain
    rw [List.nil_append, String.ofList_toList] at inside
    have opened : (singleQuoted name).toList ++ rest =
        '\'' :: (escapeQuotesChars name.toList ++ '\'' :: rest) := by
      simp [singleQuoted, escapeQuotes]
    rw [opened]
    exact inside

/-- The text is cut into these tokens, whatever comes after it apart from it. -/
def Reads (text : String) (ts : List Token) : Prop :=
  ∀ rest, Apart rest →
    tokensFrom .between (text.toList ++ rest) = ts ++ tokensFrom .between rest

def Opens (text : String) (ts : List Token) : Prop :=
  ∀ rest, tokensFrom .between (text.toList ++ rest) = ts ++ tokensFrom .between rest

namespace Reads

variable {x y : String} {ts us : List Token}

theorem word {text : String} (h : IsWord text) : Reads text [.word text] :=
  fun _ apart => tokensFrom_word h apart

theorem literal (value : String) : Reads (literal value) [.quoted value] :=
  fun rest _ => tokensFrom_literal value rest

theorem key {name : String} (h : IsLegibleKey name) : Reads (propertyKey name) [keyToken name] :=
  fun _ apart => tokensFrom_key h apart

theorem append (first : Reads x ts) (second : Reads y us) (apart : Apart y.toList) :
    Reads (x ++ y) (ts ++ us) := by
  intro rest behind
  have between : Apart (y.toList ++ rest) := by
    cases whole : y.toList with
    | nil => exact behind
    | cons c more => exact fun d same => apart d (by rw [whole]; exact same)
  rw [String.toList_append, List.append_assoc, first _ between, second rest behind,
    List.append_assoc]

theorem after (first : Opens x ts) (second : Reads y us) : Reads (x ++ y) (ts ++ us) := by
  intro rest behind
  rw [String.toList_append, List.append_assoc, first, second rest behind, List.append_assoc]

end Reads

theorem Opens.reads {x : String} {ts : List Token} (h : Opens x ts) : Reads x ts :=
  fun rest _ => h rest

def joined (c : Char) : List (List Token) → List Token
  | [] => []
  | [ts] => ts
  | ts :: us :: rest => ts ++ .mark c :: joined c (us :: rest)

theorem Reads.intercalate {separator : String} {c : Char} (opens : Opens separator [.mark c])
    (apart : ∀ cs, Apart (separator.toList ++ cs)) {xs : List String} {tss : List (List Token)}
    (all : List.Forall₂ Reads xs tss) (some_text : xs ≠ []) :
    Reads (separator.intercalate xs) (joined c tss) := by
  induction all with
  | nil => exact absurd rfl some_text
  | @cons x ts xs tss first rest ih =>
    cases rest with
    | nil =>
      rw [String.intercalate_singleton]
      exact first
    | cons second more =>
      rw [String.intercalate_cons_cons, joined]
      have later := Reads.after opens (ih (List.cons_ne_nil _ _))
      rw [String.append_assoc]
      exact first.append later (by rw [String.toList_append]; exact apart _)

end TypedClients.TypeScript

namespace TypedClients.TypeExpr

open TypeScript (propertyKey Token Apart Reads Opens joined keyToken IsWord IsLegibleKey)

inductive Occurs : TypeExpr → TypeExpr → Prop where
  | here (t : TypeExpr) : Occurs t t
  | array {u t : TypeExpr} (h : Occurs u t) : Occurs u (.array t)
  | map {u t : TypeExpr} (h : Occurs u t) : Occurs u (.map t)
  | field {u : TypeExpr} {f : String × TypeExpr × Bool} {fields : List (String × TypeExpr × Bool)}
      (listed : f ∈ fields) (h : Occurs u f.2.1) : Occurs u (.object fields)
  | union {u t : TypeExpr} {ts : List TypeExpr} (listed : t ∈ ts) (h : Occurs u t) :
      Occurs u (.union ts)
  | intersection {u t : TypeExpr} {ts : List TypeExpr} (listed : t ∈ ts) (h : Occurs u t) :
      Occurs u (.intersection ts)

def Everywhere (P : TypeExpr → Prop) (t : TypeExpr) : Prop := ∀ u, u.Occurs t → P u

def groupedTokens (compound : Bool) (ts : List Token) : List Token :=
  if compound then .mark '(' :: ts ++ [.mark ')'] else ts

mutual

def tokens : TypeExpr → List Token
  | .string => [.word "string"]
  | .dateTime => [.word "string"]
  | .number => [.word "number"]
  | .integer => [.word "number"]
  | .boolean => [.word "boolean"]
  | .null => [.word "null"]
  | .binary => [.word "Blob"]
  | .any => [.word "unknown"]
  | .void => [.word "void"]
  | .ref name => [.word name]
  | .literal s => [.quoted s]
  | .array t => groupedTokens t.isCompound (tokens t) ++ [.mark '[', .mark ']']
  | .map t => [.word "Record", .mark '<', .word "string", .mark ','] ++ tokens t ++ [.mark '>']
  | .object [] =>
    [.word "Record", .mark '<', .word "string", .mark ',', .word "unknown", .mark '>']
  | .object fields => .mark '\x7b' :: joined ';' (tokensOfFields fields) ++ [.mark '\x7d']
  | .union ts => joined '|' (tokensOfList ts)
  | .intersection ts => joined '&' (tokensOfGrouped ts)

def tokensOfList : List TypeExpr → List (List Token)
  | [] => []
  | t :: rest => tokens t :: tokensOfList rest

def tokensOfGrouped : List TypeExpr → List (List Token)
  | [] => []
  | t :: rest => groupedTokens t.isCompound (tokens t) :: tokensOfGrouped rest

def tokensOfFields : List (String × TypeExpr × Bool) → List (List Token)
  | [] => []
  | (name, t, required) :: rest =>
    (keyToken name :: (if required then [] else [.mark '?']) ++ .mark ':' :: tokens t) ::
      tokensOfFields rest

end

/-- The type is written out, and its parts are kept apart. -/
def IsLegible : TypeExpr → Prop
  | .ref name => IsWord name
  | .object fields => ∀ f ∈ fields, IsLegibleKey f.1
  | .union ts => ts ≠ []
  | .intersection ts => 1 < ts.length
  | _ => True

section

variable {P : TypeExpr → Prop} {t : TypeExpr} {ts : List TypeExpr}
  {fields : List (String × TypeExpr × Bool)}

theorem Everywhere.self (h : t.Everywhere P) : P t := h t (.here t)

theorem Everywhere.imp {Q : TypeExpr → Prop} (h : t.Everywhere P) (weaker : ∀ u, P u → Q u) :
    t.Everywhere Q := fun u inside => weaker u (h u inside)

theorem Everywhere.and {Q : TypeExpr → Prop} (first : t.Everywhere P) (second : t.Everywhere Q) :
    t.Everywhere fun u => P u ∧ Q u := fun u inside => ⟨first u inside, second u inside⟩

theorem Everywhere.item (h : (TypeExpr.array t).Everywhere P) : t.Everywhere P :=
  fun u inside => h u (.array inside)

theorem Everywhere.value (h : (TypeExpr.map t).Everywhere P) : t.Everywhere P :=
  fun u inside => h u (.map inside)

theorem Everywhere.field (h : (TypeExpr.object fields).Everywhere P) :
    ∀ f ∈ fields, f.2.1.Everywhere P := fun _ listed u inside => h u (.field listed inside)

theorem Everywhere.member (h : (TypeExpr.union ts).Everywhere P) : ∀ t ∈ ts, t.Everywhere P :=
  fun _ listed u inside => h u (.union listed inside)

theorem Everywhere.part (h : (TypeExpr.intersection ts).Everywhere P) :
    ∀ t ∈ ts, t.Everywhere P := fun _ listed u inside => h u (.intersection listed inside)

theorem Everywhere.atom (atom : t.isAtom = true) (self : P t) : t.Everywhere P := by
  intro u inside
  cases inside with
  | here => exact self
  | _ => cases atom

theorem Everywhere.array (self : P (.array t)) (item : t.Everywhere P) :
    (TypeExpr.array t).Everywhere P := by
  intro u inside
  cases inside with
  | here => exact self
  | array inside => exact item u inside

theorem Everywhere.map (self : P (.map t)) (value : t.Everywhere P) :
    (TypeExpr.map t).Everywhere P := by
  intro u inside
  cases inside with
  | here => exact self
  | map inside => exact value u inside

theorem Everywhere.object (self : P (.object fields)) (types : ∀ f ∈ fields, f.2.1.Everywhere P) :
    (TypeExpr.object fields).Everywhere P := by
  intro u inside
  cases inside with
  | here => exact self
  | field listed inside => exact types _ listed u inside

theorem Everywhere.union (self : P (.union ts)) (members : ∀ t ∈ ts, t.Everywhere P) :
    (TypeExpr.union ts).Everywhere P := by
  intro u inside
  cases inside with
  | here => exact self
  | union listed inside => exact members _ listed u inside

theorem Everywhere.intersection (self : P (.intersection ts)) (parts : ∀ t ∈ ts, t.Everywhere P) :
    (TypeExpr.intersection ts).Everywhere P := by
  intro u inside
  cases inside with
  | here => exact self
  | intersection listed inside => exact parts _ listed u inside

end

theorem grouped_reads {text : String} {ts : List Token} (h : Reads text ts) (compound : Bool) :
    Reads (grouped compound text) (groupedTokens compound ts) := by
  have opening : Opens "(" [.mark '('] := fun _ => rfl
  have closing : Opens ")" [.mark ')'] := fun _ => rfl
  unfold grouped groupedTokens
  cases compound with
  | false => exact h
  | true => exact (Reads.after opening h).append closing.reads (.cons rfl [])

mutual

theorem write_reads : (t : TypeExpr) → t.Everywhere IsLegible → Reads t.write t.tokens
  | .string, _ | .dateTime, _ | .number, _ | .integer, _ | .boolean, _ | .null, _ | .binary, _
  | .any, _ | .void, _ => by
    rw [write, tokens]
    exact .word (by decide)
  | .ref name, legible => by
    rw [write, tokens]
    exact .word legible.self
  | .literal s, _ => by
    rw [write, tokens]
    exact .literal s
  | .array t, legible => by
    have item := grouped_reads (write_reads t legible.item) t.isCompound
    have brackets : Opens "[]" [.mark '[', .mark ']'] := fun _ => rfl
    rw [write, tokens]
    exact item.append brackets.reads (.cons rfl _)
  | .map t, legible => by
    have value := write_reads t legible.value
    have opening : Opens "Record<string, "
        [.word "Record", .mark '<', .word "string", .mark ','] := fun _ => rfl
    have closing : Opens ">" [.mark '>'] := fun _ => rfl
    rw [write, tokens]
    exact (Reads.after opening value).append closing.reads (.cons rfl _)
  | .object [], _ => by
    have whole : Opens "Record<string, unknown>" [.word "Record", .mark '<', .word "string",
        .mark ',', .word "unknown", .mark '>'] := fun _ => rfl
    rw [write, tokens]
    exact whole.reads
  | .object (f :: fields), legible => by
    have inside := writeFields_reads (f :: fields) legible.self legible.field
    have opening : Opens "\x7b " [.mark '\x7b'] := fun _ => rfl
    have closing : Opens " \x7d" [.mark '\x7d'] := fun _ => rfl
    have between : Opens "; " [.mark ';'] := fun _ => rfl
    have some_field : writeFields (f :: fields) ≠ [] := by simp [writeFields]
    rw [write, tokens]
    · have list := Reads.intercalate between (fun _ => .cons rfl _) inside some_field
      exact (Reads.after opening list).append closing.reads (.cons rfl _)
    · exact List.cons_ne_nil _ _
    · exact List.cons_ne_nil _ _
  | .union ts, legible => by
    have between : Opens " | " [.mark '|'] := fun _ => rfl
    have some_member : writeList ts ≠ [] := by
      obtain ⟨t, rest, whole⟩ := List.exists_cons_of_ne_nil legible.self
      simp [whole, writeList]
    rw [write, tokens]
    exact .intercalate between (fun _ => .cons rfl _) (writeList_reads ts legible.member)
      some_member
  | .intersection ts, legible => by
    have between : Opens " & " [.mark '&'] := fun _ => rfl
    have some_part : writeGrouped ts ≠ [] := by
      have several : 1 < ts.length := legible.self
      cases ts with
      | nil => cases several
      | cons t rest => simp [writeGrouped]
    rw [write, tokens]
    exact .intercalate between (fun _ => .cons rfl _) (writeGrouped_reads ts legible.part)
      some_part

theorem writeList_reads : (ts : List TypeExpr) → (∀ t ∈ ts, t.Everywhere IsLegible) →
    List.Forall₂ Reads (writeList ts) (tokensOfList ts)
  | [], _ => .nil
  | t :: rest, legible => .cons (write_reads t (legible t List.mem_cons_self))
      (writeList_reads rest fun u listed => legible u (List.mem_cons_of_mem _ listed))

theorem writeGrouped_reads : (ts : List TypeExpr) → (∀ t ∈ ts, t.Everywhere IsLegible) →
    List.Forall₂ Reads (writeGrouped ts) (tokensOfGrouped ts)
  | [], _ => .nil
  | t :: rest, legible =>
    .cons (grouped_reads (write_reads t (legible t List.mem_cons_self)) t.isCompound)
      (writeGrouped_reads rest fun u listed => legible u (List.mem_cons_of_mem _ listed))

theorem writeFields_reads : (fields : List (String × TypeExpr × Bool)) →
    (∀ f ∈ fields, IsLegibleKey f.1) → (∀ f ∈ fields, f.2.1.Everywhere IsLegible) →
    List.Forall₂ Reads (writeFields fields) (tokensOfFields fields)
  | [], _, _ => .nil
  | (name, t, required) :: rest, keys, legible => by
    have key := Reads.key (keys _ List.mem_cons_self)
    have type := write_reads t (legible _ List.mem_cons_self)
    have later := writeFields_reads rest (fun f listed => keys f (List.mem_cons_of_mem _ listed))
      fun f listed => legible f (List.mem_cons_of_mem _ listed)
    have colon : Opens ": " [.mark ':'] := fun _ => rfl
    have optional : Opens "?" [.mark '?'] := fun _ => rfl
    have marked : Reads (propertyKey name ++ if required then "" else "?")
        (keyToken name :: if required then [] else [.mark '?']) := by
      cases required with
      | true => simpa using key
      | false => exact key.append optional.reads (.cons rfl [])
    have apart : Apart (": " ++ write t).toList := by
      rw [String.toList_append]
      exact .cons rfl _
    have whole := marked.append (.after colon type) apart
    rw [writeFields, tokensOfFields, String.append_assoc]
    exact .cons whole later

end

end TypedClients.TypeExpr
