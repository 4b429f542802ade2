import TypedClients.Proofs.TypeTokens

namespace TypedClients.TypeScript

inductive TypeTree where
  | name (text : String)
  | literal (value : String)
  | array (item : TypeTree)
  | record (value : TypeTree)
  | object (fields : List (String × TypeTree × Bool))
  | union (members : List TypeTree)
  | intersection (members : List TypeTree)

/-- The same type, where a union in a union and an intersection in an intersection are one with it,
and a single member stands for itself. -/
inductive TypeTree.Same : TypeTree → TypeTree → Prop where
  | refl (t : TypeTree) : Same t t
  | symm {t u : TypeTree} (h : Same t u) : Same u t
  | trans {t u v : TypeTree} (first : Same t u) (second : Same u v) : Same t v
  | array {t u : TypeTree} (h : Same t u) : Same (.array t) (.array u)
  | record {t u : TypeTree} (h : Same t u) : Same (.record t) (.record u)
  | field {t u : TypeTree} (h : Same t u) (before after : List (String × TypeTree × Bool))
      (name : String) (required : Bool) : Same (.object (before ++ (name, t, required) :: after))
        (.object (before ++ (name, u, required) :: after))
  | member {t u : TypeTree} (h : Same t u) (before after : List TypeTree) :
      Same (.union (before ++ t :: after)) (.union (before ++ u :: after))
  | part {t u : TypeTree} (h : Same t u) (before after : List TypeTree) :
      Same (.intersection (before ++ t :: after)) (.intersection (before ++ u :: after))
  | nestedUnion (before inner after : List TypeTree) :
      Same (.union (before ++ .union inner :: after)) (.union (before ++ inner ++ after))
  | nestedIntersection (before inner after : List TypeTree) :
      Same (.intersection (before ++ .intersection inner :: after))
        (.intersection (before ++ inner ++ after))
  | singleUnion (t : TypeTree) : Same (.union [t]) t
  | singleIntersection (t : TypeTree) : Same (.intersection [t]) t

/-- What was read since the last bracket was opened: the alternatives that are done, the factors of
the one that is not, and the type behind the last mark, if there is one. -/
structure Frame where
  done : List (List TypeTree) := []
  factors : List TypeTree := []
  current : Option TypeTree := none

inductive Opening where
  | whole
  | group
  | index
  | arguments
  | record
  | key (fields : List (String × TypeTree × Bool))
  | keyed (fields : List (String × TypeTree × Bool)) (name : String) (required : Bool)
  | field (fields : List (String × TypeTree × Bool)) (name : String) (required : Bool)

def Opening.awaitsType : Opening → Bool
  | .whole | .group | .arguments | .record | .field _ _ _ => true
  | .index | .key _ | .keyed _ _ _ => false

abbrev Stack := List (Opening × Frame)

namespace Frame

def close (f : Frame) : Option TypeTree :=
  f.current.map fun t => .union (f.done.map .intersection ++ [.intersection (f.factors ++ [t])])

def fill (t : TypeTree) (f : Frame) : Option Frame :=
  match f.current with
  | none => some { f with current := some t }
  | some _ => none

end Frame

def fillTop (t : TypeTree) : Stack → Option Stack
  | (o, f) :: rest => if o.awaitsType then (f.fill t).map fun f => (o, f) :: rest else none
  | [] => none

def openTop (inner : Opening) : Stack → Option Stack
  | (o, f) :: rest =>
    if o.awaitsType && f.current.isNone then some ((inner, {}) :: (o, f) :: rest) else none
  | [] => none

def readMark (c : Char) (s : Stack) : Option Stack :=
  match c, s with
  | '|', (o, ⟨done, factors, some t⟩) :: rest =>
    some ((o, ⟨done ++ [factors ++ [t]], [], none⟩) :: rest)
  | '&', (o, ⟨done, factors, some t⟩) :: rest => some ((o, ⟨done, factors ++ [t], none⟩) :: rest)
  | '(', s => openTop .group s
  | ')', (.group, f) :: rest => f.close.bind (fillTop · rest)
  | '[', (o, ⟨done, factors, some t⟩) :: rest =>
    some ((.index, {}) :: (o, ⟨done, factors, some t⟩) :: rest)
  | ']', (.index, _) :: (o, ⟨done, factors, some t⟩) :: rest =>
    some ((o, ⟨done, factors, some (.array t)⟩) :: rest)
  | '<', (o, ⟨done, factors, some (.name "Record")⟩) :: rest =>
    some ((.arguments, {}) :: (o, ⟨done, factors, none⟩) :: rest)
  | ',', (.arguments, ⟨[], [], some (.name "string")⟩) :: rest => some ((.record, {}) :: rest)
  | '>', (.record, f) :: rest => f.close.bind fun t => fillTop (.record t) rest
  | '\x7b', s => openTop (.key []) s
  | '?', (.keyed fields name true, f) :: rest => some ((.keyed fields name false, f) :: rest)
  | ':', (.keyed fields name required, f) :: rest => some ((.field fields name required, f) :: rest)
  | ';', (.field fields name required, f) :: rest =>
    f.close.map fun t => (.key (fields ++ [(name, t, required)]), {}) :: rest
  | '\x7d', (.field fields name required, f) :: rest =>
    f.close.bind fun t => fillTop (.object (fields ++ [(name, t, required)])) rest
  | _, _ => none

def readToken : Token → Stack → Option Stack
  | .word w, (.key fields, f) :: rest => some ((.keyed fields w true, f) :: rest)
  | .quoted w, (.key fields, f) :: rest => some ((.keyed fields w true, f) :: rest)
  | .word w, s => fillTop (.name w) s
  | .quoted w, s => fillTop (.literal w) s
  | .mark c, s => readMark c s

def readTokens : List Token → Stack → Option Stack
  | [], s => some s
  | t :: rest, s => (readToken t s).bind (readTokens rest)

def readType (text : String) : Option TypeTree :=
  match readTokens (tokens text) [(.whole, {})] with
  | some [(.whole, f)] => f.close
  | _ => none

/-- Alternatives made of factors, of which the last factor of the last alternative is still open to
a mark behind it. -/
structure Terms where
  done : List (List TypeTree)
  factors : List TypeTree
  last : TypeTree

namespace Terms

def single (t : TypeTree) : Terms := ⟨[], [], t⟩

def close (r : Terms) : TypeTree :=
  .union (r.done.map .intersection ++ [.intersection (r.factors ++ [r.last])])

def behind (done : List (List TypeTree)) (factors : List TypeTree) (r : Terms) : Terms :=
  match r.done with
  | [] => ⟨done, factors ++ r.factors, r.last⟩
  | first :: more => ⟨done ++ (factors ++ first) :: more, r.factors, r.last⟩

def either (r s : Terms) : Terms := s.behind (r.done ++ [r.factors ++ [r.last]]) []

def both (r s : Terms) : Terms := s.behind r.done (r.factors ++ [r.last])

def eitherAll : List Terms → Terms
  | [] => single (.union [])
  | [r] => r
  | r :: s :: rest => r.either (eitherAll (s :: rest))

def bothAll : List Terms → Terms
  | [] => single (.intersection [])
  | [r] => r
  | r :: s :: rest => r.both (bothAll (s :: rest))

def grouped (compound : Bool) (r : Terms) : Terms := if compound then single r.close else r

def inArray (r : Terms) : Terms := { r with last := .array r.last }

variable {r s : Terms} {done : List (List TypeTree)} {factors : List TypeTree}

theorem either_behind : (r.either s).behind done factors = (r.behind done factors).either s := by
  obtain ⟨rd, rf, rl⟩ := r
  obtain ⟨sd, sf, sl⟩ := s
  cases rd <;> cases sd <;> simp [either, behind]

theorem both_behind : (r.both s).behind done factors = (r.behind done factors).both s := by
  obtain ⟨rd, rf, rl⟩ := r
  obtain ⟨sd, sf, sl⟩ := s
  cases rd <;> cases sd <;> simp [both, behind]

end Terms

def Frame.push (f : Frame) (r : Terms) : Frame :=
  ⟨(r.behind f.done f.factors).done, (r.behind f.done f.factors).factors,
    some (r.behind f.done f.factors).last⟩

theorem Frame.close_push (r : Terms) : (Frame.push {} r).close = some r.close := by
  obtain ⟨done, factors, last⟩ := r
  cases done <;> simp [push, close, Terms.close, Terms.behind]

def Adds (ts : List Token) (r : Terms) : Prop :=
  ∀ (o : Opening) (f : Frame) (rest : Stack) (more : List Token), o.awaitsType = true →
    f.current = none →
    readTokens (ts ++ more) ((o, f) :: rest) = readTokens more ((o, f.push r) :: rest)

theorem fillTop_of_awaits {o : Opening} (awaits : o.awaitsType = true) {f : Frame}
    (free : f.current = none) (t : TypeTree) (rest : Stack) :
    fillTop t ((o, f) :: rest) = some ((o, f.push (.single t)) :: rest) := by
  obtain ⟨done, factors, current⟩ := f
  cases free
  simp [fillTop, awaits, Frame.fill, Frame.push, Terms.behind, Terms.single]

theorem openTop_of_awaits {o : Opening} (awaits : o.awaitsType = true) {f : Frame}
    (free : f.current = none) (inner : Opening) (rest : Stack) :
    openTop inner ((o, f) :: rest) = some ((inner, {}) :: (o, f) :: rest) := by
  simp [openTop, awaits, free]

theorem readToken_word {o : Opening} (awaits : o.awaitsType = true) (w : String) (f : Frame)
    (rest : Stack) : readToken (.word w) ((o, f) :: rest) = fillTop (.name w) ((o, f) :: rest) := by
  cases o <;> first | rfl | cases awaits

theorem readToken_quoted {o : Opening} (awaits : o.awaitsType = true) (w : String) (f : Frame)
    (rest : Stack) :
    readToken (.quoted w) ((o, f) :: rest) = fillTop (.literal w) ((o, f) :: rest) := by
  cases o <;> first | rfl | cases awaits

section

variable (f : Frame) (rest : Stack) (fields : List (String × TypeTree × Bool)) (name : String)
  (required : Bool)

theorem readMark_openGroup (s : Stack) : readMark '(' s = openTop .group s := by
  simp [readMark]

theorem readMark_openObject (s : Stack) : readMark '\x7b' s = openTop (.key []) s := by
  simp [readMark]

theorem readMark_closeGroup :
    readMark ')' ((.group, f) :: rest) = f.close.bind (fillTop · rest) := by
  simp [readMark]

theorem readMark_closeRecord :
    readMark '>' ((.record, f) :: rest) = f.close.bind fun t => fillTop (.record t) rest := by
  simp [readMark]

theorem readMark_optional : readMark '?' ((.keyed fields name true, f) :: rest) =
    some ((.keyed fields name false, f) :: rest) := by
  simp [readMark]

theorem readMark_colon : readMark ':' ((.keyed fields name required, f) :: rest) =
    some ((.field fields name required, f) :: rest) := by
  simp [readMark]

theorem readMark_semicolon : readMark ';' ((.field fields name required, f) :: rest) =
    f.close.map fun t => (.key (fields ++ [(name, t, required)]), {}) :: rest := by
  simp [readMark]

theorem readMark_closeObject : readMark '\x7d' ((.field fields name required, f) :: rest) =
    f.close.bind fun t => fillTop (.object (fields ++ [(name, t, required)])) rest := by
  simp [readMark]

end

namespace Adds

variable {ts us : List Token} {r s : Terms}

theorem word (w : String) : Adds [.word w] (.single (.name w)) := by
  intro o f rest more awaits free
  rw [List.singleton_append, readTokens, readToken_word awaits, fillTop_of_awaits awaits free,
    Option.bind_some]

theorem quoted (w : String) : Adds [.quoted w] (.single (.literal w)) := by
  intro o f rest more awaits free
  rw [List.singleton_append, readTokens, readToken_quoted awaits, fillTop_of_awaits awaits free,
    Option.bind_some]

theorem either (first : Adds ts r) (second : Adds us s) :
    Adds (ts ++ .mark '|' :: us) (r.either s) := by
  intro o f rest more awaits free
  rw [List.append_assoc, first o f rest _ awaits free]
  show readTokens (us ++ more) ((o, ⟨_, _, none⟩) :: rest) = _
  rw [second o _ rest more awaits rfl]
  unfold Frame.push
  rw [Terms.either_behind]
  rfl

theorem both (first : Adds ts r) (second : Adds us s) :
    Adds (ts ++ .mark '&' :: us) (r.both s) := by
  intro o f rest more awaits free
  rw [List.append_assoc, first o f rest _ awaits free]
  show readTokens (us ++ more) ((o, ⟨_, _, none⟩) :: rest) = _
  rw [second o _ rest more awaits rfl]
  unfold Frame.push
  rw [Terms.both_behind]
  rfl

theorem eitherAll {tss : List (List Token)} {rs : List Terms} (all : List.Forall₂ Adds tss rs)
    (some_list : tss ≠ []) : Adds (joined '|' tss) (Terms.eitherAll rs) := by
  induction all with
  | nil => exact absurd rfl some_list
  | cons first rest ih =>
    cases rest with
    | nil => exact first
    | cons second more => exact first.either (ih (List.cons_ne_nil _ _))

theorem bothAll {tss : List (List Token)} {rs : List Terms} (all : List.Forall₂ Adds tss rs)
    (some_list : tss ≠ []) : Adds (joined '&' tss) (Terms.bothAll rs) := by
  induction all with
  | nil => exact absurd rfl some_list
  | cons first rest ih =>
    cases rest with
    | nil => exact first
    | cons second more => exact first.both (ih (List.cons_ne_nil _ _))

theorem grouped (inner : Adds ts r) (compound : Bool) :
    Adds (TypeExpr.groupedTokens compound ts) (r.grouped compound) := by
  cases compound with
  | false => exact inner
  | true =>
    intro o f rest more awaits free
    have split : TypeExpr.groupedTokens true ts ++ more =
        .mark '(' :: (ts ++ .mark ')' :: more) := by simp [TypeExpr.groupedTokens]
    rw [split, readTokens, readToken, readMark_openGroup, openTop_of_awaits awaits free,
      Option.bind_some, inner .group {} _ _ rfl rfl, readTokens, readToken, readMark_closeGroup,
      Frame.close_push, Option.bind_some, fillTop_of_awaits awaits free]
    rfl

theorem inArray (inner : Adds ts r) : Adds (ts ++ [.mark '[', .mark ']']) r.inArray := by
  intro o f rest more awaits free
  rw [List.append_assoc, inner o f rest _ awaits free]
  obtain ⟨done, factors, last⟩ := r
  cases done <;> rfl

theorem inRecord (inner : Adds ts r) :
    Adds ([.word "Record", .mark '<', .word "string", .mark ','] ++ ts ++ [.mark '>'])
      (.single (.record r.close)) := by
  intro o f rest more awaits free
  rw [List.append_assoc, List.append_assoc, List.cons_append, readTokens, readToken_word awaits,
    fillTop_of_awaits awaits free, Option.bind_some]
  obtain ⟨done, factors, current⟩ := f
  cases free
  show readTokens (ts ++ ([.mark '>'] ++ more)) ((.record, {}) :: (o, ⟨done, _, none⟩) :: rest) = _
  rw [inner .record {} _ _ rfl rfl, List.singleton_append, readTokens, readToken,
    readMark_closeRecord, Frame.close_push, Option.bind_some, fillTop_of_awaits awaits rfl]
  simp [Frame.push, Terms.behind, Terms.single]

theorem field (type : Adds ts r) (before : List (String × TypeTree × Bool)) (name : String)
    (required : Bool) (rest : Stack) (more : List Token) :
    readTokens
        ((keyToken name :: (if required then [] else [.mark '?']) ++ .mark ':' :: ts) ++ more)
        ((.key before, {}) :: rest) =
      readTokens more ((.field before name required, Frame.push {} r) :: rest) := by
  have key : readToken (keyToken name) ((.key before, {}) :: rest) =
      some ((.keyed before name true, {}) :: rest) := by
    unfold keyToken
    split <;> rfl
  rw [List.cons_append, List.cons_append, readTokens, key, Option.bind_some]
  cases required with
  | true =>
    simp only [if_true, List.nil_append, List.cons_append]
    rw [readTokens, readToken, readMark_colon, Option.bind_some]
    exact type _ {} rest more rfl rfl
  | false =>
    simp only [Bool.false_eq_true, if_false, List.nil_append, List.cons_append]
    rw [readTokens, readToken, readMark_optional, Option.bind_some, readTokens, readToken,
      readMark_colon, Option.bind_some]
    exact type _ {} rest more rfl rfl

end Adds

end TypedClients.TypeScript

namespace TypedClients.TypeExpr

open TypeScript (TypeTree Terms Token Adds Opening Frame Stack joined keyToken readTokens readToken
  fillTop)

mutual

/-- The type as TypeScript has it. -/
def tree : TypeExpr → TypeTree
  | .string => .name "string"
  | .dateTime => .name "string"
  | .number => .name "number"
  | .integer => .name "number"
  | .boolean => .name "boolean"
  | .null => .name "null"
  | .binary => .name "Blob"
  | .any => .name "unknown"
  | .void => .name "void"
  | .ref name => .name name
  | .literal s => .literal s
  | .array t => .array (tree t)
  | .map t => .record (tree t)
  | .object [] => .record (.name "unknown")
  | .object fields => .object (treesOfFields fields)
  | .union ts => .union (treesOfList ts)
  | .intersection ts => .intersection (treesOfList ts)

def treesOfList : List TypeExpr → List TypeTree
  | [] => []
  | t :: rest => tree t :: treesOfList rest

def treesOfFields : List (String × TypeExpr × Bool) → List (String × TypeTree × Bool)
  | [] => []
  | (name, t, required) :: rest => (name, tree t, required) :: treesOfFields rest

end

mutual

def terms : TypeExpr → Terms
  | .string => .single (.name "string")
  | .dateTime => .single (.name "string")
  | .number => .single (.name "number")
  | .integer => .single (.name "number")
  | .boolean => .single (.name "boolean")
  | .null => .single (.name "null")
  | .binary => .single (.name "Blob")
  | .any => .single (.name "unknown")
  | .void => .single (.name "void")
  | .ref name => .single (.name name)
  | .literal s => .single (.literal s)
  | .array t => ((terms t).grouped t.isCompound).inArray
  | .map t => .single (.record (terms t).close)
  | .object [] => .single (.record (Terms.single (.name "unknown")).close)
  | .object fields => .single (.object (termsOfFields fields))
  | .union ts => .eitherAll (termsOfList ts)
  | .intersection ts => .bothAll (termsOfGrouped ts)

def termsOfList : List TypeExpr → List Terms
  | [] => []
  | t :: rest => terms t :: termsOfList rest

def termsOfGrouped : List TypeExpr → List Terms
  | [] => []
  | t :: rest => (terms t).grouped t.isCompound :: termsOfGrouped rest

def termsOfFields : List (String × TypeExpr × Bool) → List (String × TypeTree × Bool)
  | [] => []
  | (name, t, required) :: rest => (name, (terms t).close, required) :: termsOfFields rest

end

mutual

theorem tokens_add : (t : TypeExpr) → t.Everywhere IsLegible → Adds t.tokens t.terms
  | .string, _ | .dateTime, _ | .number, _ | .integer, _ | .boolean, _ | .null, _ | .binary, _
  | .any, _ | .void, _ | .ref name, _ => by
    rw [tokens, terms]
    exact .word _
  | .literal s, _ => by
    rw [tokens, terms]
    exact .quoted s
  | .array t, legible => by
    rw [tokens, terms]
    exact ((tokens_add t legible.item).grouped t.isCompound).inArray
  | .map t, legible => by
    rw [tokens, terms]
    exact (tokens_add t legible.value).inRecord
  | .object [], _ => by
    rw [tokens, terms]
    exact (Adds.word "unknown").inRecord
  | .object (f :: fields), legible => by
    intro o frame rest more awaits free
    rw [tokens, terms]
    · rw [List.cons_append, List.cons_append, List.append_assoc, List.singleton_append, readTokens,
        readToken, TypeScript.readMark_openObject, TypeScript.openTop_of_awaits awaits free,
        Option.bind_some,
        tokensOfFields_add (f :: fields) (List.cons_ne_nil _ _) legible.field,
        TypeScript.fillTop_of_awaits awaits free]
      rfl
    · exact List.cons_ne_nil _ _
    · exact List.cons_ne_nil _ _
  | .union ts, legible => by
    have some_member : tokensOfList ts ≠ [] := by
      obtain ⟨t, rest, whole⟩ := List.exists_cons_of_ne_nil legible.self
      simp [whole, tokensOfList]
    rw [tokens, terms]
    exact .eitherAll (tokensOfList_add ts legible.member) some_member
  | .intersection ts, legible => by
    have some_part : tokensOfGrouped ts ≠ [] := by
      have several : 1 < ts.length := legible.self
      cases ts with
      | nil => cases several
      | cons t rest => simp [tokensOfGrouped]
    rw [tokens, terms]
    exact .bothAll (tokensOfGrouped_add ts legible.part) some_part

theorem tokensOfList_add : (ts : List TypeExpr) → (∀ t ∈ ts, t.Everywhere IsLegible) →
    List.Forall₂ Adds (tokensOfList ts) (termsOfList ts)
  | [], _ => .nil
  | t :: rest, legible => .cons (tokens_add t (legible t List.mem_cons_self))
      (tokensOfList_add rest fun u listed => legible u (List.mem_cons_of_mem _ listed))

theorem tokensOfGrouped_add : (ts : List TypeExpr) → (∀ t ∈ ts, t.Everywhere IsLegible) →
    List.Forall₂ Adds (tokensOfGrouped ts) (termsOfGrouped ts)
  | [], _ => .nil
  | t :: rest, legible =>
    .cons ((tokens_add t (legible t List.mem_cons_self)).grouped t.isCompound)
      (tokensOfGrouped_add rest fun u listed => legible u (List.mem_cons_of_mem _ listed))

theorem tokensOfFields_add : (fields : List (String × TypeExpr × Bool)) → fields ≠ [] →
    (∀ f ∈ fields, f.2.1.Everywhere IsLegible) → ∀ before (rest : Stack) more,
    readTokens (joined ';' (tokensOfFields fields) ++ .mark '\x7d' :: more)
        ((.key before, {}) :: rest) =
      (fillTop (.object (before ++ termsOfFields fields)) rest).bind (readTokens more)
  | [], some_field, _ => absurd rfl some_field
  | (name, t, required) :: later, _, legible => by
    intro before rest more
    have type := tokens_add t (legible _ List.mem_cons_self)
    cases later with
    | nil =>
      rw [tokensOfFields, tokensOfFields, joined, type.field before name required rest, readTokens,
        readToken, TypeScript.readMark_closeObject, Frame.close_push]
      rfl
    | cons g others =>
      have next := tokensOfFields_add (g :: others) (List.cons_ne_nil _ _)
        (fun f listed => legible f (List.mem_cons_of_mem _ listed))
        (before ++ [(name, t.terms.close, required)]) rest more
      rw [List.append_assoc, List.singleton_append] at next
      have semicolon := type.field before name required rest
        (.mark ';' :: (joined ';' (tokensOfFields (g :: others)) ++ .mark '\x7d' :: more))
      rw [readTokens, readToken, TypeScript.readMark_semicolon, Frame.close_push, Option.map_some,
        Option.bind_some, next] at semicolon
      rw [termsOfFields, ← semicolon, tokensOfFields]
      simp [tokensOfFields, joined]

end

theorem readType_write {t : TypeExpr} (legible : t.Everywhere IsLegible) :
    TypeScript.readType t.write = some t.terms.close := by
  have cut := write_reads t legible [] TypeScript.apart_nil
  have read := tokens_add t legible .whole {} [] [] rfl rfl
  rw [List.append_nil] at cut read
  have whole : TypeScript.tokens t.write = t.tokens := cut.trans (List.append_nil _)
  unfold TypeScript.readType
  rw [whole, read, readTokens]
  exact Frame.close_push t.terms

end TypedClients.TypeExpr
