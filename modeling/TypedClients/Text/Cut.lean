import TypedClients.Text.Letter

namespace TypedClients.Text

/-- The parts between the characters that satisfy `p`; one more than there are such characters. -/
def partsFrom (p : Char → Bool) (part : List Char) : List Char → List (List Char)
  | [] => [part.reverse]
  | c :: rest => if p c then part.reverse :: partsFrom p [] rest else partsFrom p (c :: part) rest

def parts (p : Char → Bool) (s : String) : List String :=
  (partsFrom p [] s.toList).map String.ofList

def splitAt (c : Char) (s : String) : List String := parts (· == c) s

def trimStart (p : Char → Bool) (cs : List Char) : List Char := cs.dropWhile p

def trimEnd (p : Char → Bool) (cs : List Char) : List Char := (cs.reverse.dropWhile p).reverse

def trim (s : String) : String := String.ofList (trimEnd isBlank (trimStart isBlank s.toList))

def trimEndBlanks (s : String) : String := String.ofList (trimEnd isBlank s.toList)

def before (c : Char) (s : String) : String := String.ofList (s.toList.takeWhile (· != c))

def upToChars (mark : List Char) : List Char → List Char
  | [] => []
  | c :: rest => if mark.isPrefixOf (c :: rest) then [] else c :: upToChars mark rest

def upTo (mark s : String) : String := String.ofList (upToChars mark.toList s.toList)

def splitOnce? (c : Char) (s : String) : Option (String × String) :=
  match s.toList.dropWhile (· != c) with
  | [] => none
  | _ :: rest => some (before c s, String.ofList rest)

def fields (s : String) : List String := (parts isBlank s).filter (· != "")

def hasLead (lead s : String) : Bool := lead.toList.isPrefixOf s.toList

def hasTail (tail s : String) : Bool := tail.toList.isSuffixOf s.toList

def afterLead? (lead s : String) : Option String :=
  if hasLead lead s then some (String.ofList (s.toList.drop lead.toList.length)) else none

def beforeTail? (tail s : String) : Option String :=
  if hasTail tail s then some (String.ofList (s.toList.take (s.toList.length - tail.toList.length)))
  else none

def hasChar (c : Char) (s : String) : Bool := s.toList.contains c

def containsChars (part : List Char) : List Char → Bool
  | [] => part.isEmpty
  | c :: rest => part.isPrefixOf (c :: rest) || containsChars part rest

def contains (part s : String) : Bool := containsChars part.toList s.toList

/-- Replaces every occurrence, from left to right. `skip` counts the characters of the last one that
are still to be passed over. -/
def replaceFrom (old new : List Char) : (skip : Nat) → List Char → List Char
  | _, [] => []
  | skip + 1, _ :: rest => replaceFrom old new skip rest
  | 0, c :: rest =>
    if old.isPrefixOf (c :: rest) then new ++ replaceFrom old new (old.length - 1) rest
    else c :: replaceFrom old new 0 rest

def replace (old new s : String) : String :=
  String.ofList (replaceFrom old.toList new.toList 0 s.toList)

section

variable {old new rest : List Char}

theorem replaceFrom_skipped (passed rest : List Char) :
    replaceFrom old new passed.length (passed ++ rest) = replaceFrom old new 0 rest := by
  induction passed with
  | nil => rfl
  | cons _ passed ih => exact ih

theorem replaceFrom_append (some_char : old ≠ []) (rest : List Char) :
    replaceFrom old new 0 (old ++ rest) = new ++ replaceFrom old new 0 rest := by
  cases old with
  | nil => contradiction
  | cons c old =>
    have found : (c :: old).isPrefixOf (c :: (old ++ rest)) = true :=
      List.isPrefixOf_iff_prefix.mpr (List.prefix_append (c :: old) rest)
    rw [List.cons_append, replaceFrom, if_pos found]
    congr 1
    exact replaceFrom_skipped old rest

theorem replaceFrom_cons {c : Char} (h : ¬ old <+: c :: rest) :
    replaceFrom old new 0 (c :: rest) = c :: replaceFrom old new 0 rest := by
  rw [replaceFrom, if_neg (fun found => h (List.isPrefixOf_iff_prefix.mp found))]

theorem replaceFrom_single (c : Char) (new cs : List Char) :
    replaceFrom [c] new 0 cs = cs.flatMap fun d => if d = c then new else [d] := by
  induction cs with
  | nil => rfl
  | cons d rest ih =>
    rw [List.flatMap_cons, ← ih]
    by_cases same : d = c
    · rw [same, if_pos rfl]
      exact replaceFrom_append (List.cons_ne_nil c []) rest
    · have other : ¬ [c] <+: d :: rest := by simp [Ne.symm same]
      rw [replaceFrom_cons other, if_neg same]
      rfl

end

def dropReturn (line : List Char) : List Char :=
  if line.getLast? == some '\r' then line.dropLast else line

/-- Lines end with a line feed, which a carriage return may precede; behind the last line feed an
empty rest is no line. -/
def linesFrom (line : List Char) : List Char → List (List Char)
  | [] => if line.isEmpty then [] else [line.reverse]
  | c :: rest =>
    if c = '\n' then dropReturn line.reverse :: linesFrom [] rest else linesFrom (c :: line) rest

def lines (s : String) : List String := (linesFrom [] s.toList).map String.ofList

def join (separator : String) (xs : List String) : String := separator.intercalate xs

def indentation (depth : Nat) : String := String.ofList (List.replicate (2 * depth) ' ')

def equalIgnoringCase (a b : String) : Bool := asciiLower a == asciiLower b

end TypedClients.Text
