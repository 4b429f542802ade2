import TypedClients.Text.CharTable

namespace TypedClients.Text

def inRanges (table : List (Nat × Nat)) (c : Char) : Bool :=
  table.any fun (first, last) => first ≤ c.toNat && c.toNat ≤ last

def inRuns (table : List (Nat × Nat × Nat)) (c : Char) : Bool :=
  table.any fun (first, last, step) =>
    first ≤ c.toNat && c.toNat ≤ last && (c.toNat - first) % step == 0

def isAscii (c : Char) : Bool := c.toNat < 128

def isAlphanumeric (c : Char) : Bool :=
  if isAscii c then c.isAlphanum else inRanges alphanumericRanges c

def isLowercase (c : Char) : Bool :=
  if isAscii c then c.isLower else inRuns lowercaseRuns c

def isUppercase (c : Char) : Bool :=
  if isAscii c then c.isUpper else inRuns uppercaseRuns c

def isCased (c : Char) : Bool :=
  isLowercase c || isUppercase c || inRanges titlecaseRanges c

def isCaseIgnorable (c : Char) : Bool :=
  if isAscii c then [39, 46, 58, 94, 96].contains c.toNat
  else inRuns caseIgnorableRuns c

def isBlank (c : Char) : Bool :=
  if isAscii c then c == ' ' || (9 ≤ c.toNat && c.toNat ≤ 13) else inRanges blankRanges c

theorem digit_bounds {c : Char} (h : c.isDigit = true) : 48 ≤ c.toNat ∧ c.toNat ≤ 57 := by
  simpa [Char.isDigit, UInt32.le_iff_toNat_le] using h

theorem isAscii_of_isDigit {c : Char} (h : c.isDigit = true) : isAscii c = true := by
  have bounds := digit_bounds h
  exact decide_eq_true (by omega)

theorem ne_of_isDigit {c d : Char} (digit : c.isDigit = true) (other : d.isDigit = false) :
    c ≠ d := by
  rintro rfl
  rw [digit] at other
  cases other

theorem isBlank_of_isDigit {c : Char} (h : c.isDigit = true) : isBlank c = false := by
  have bounds := digit_bounds h
  have other : c ≠ ' ' := ne_of_isDigit h (by decide)
  have high : ¬ c.toNat ≤ 13 := by omega
  simp [isBlank, isAscii_of_isDigit h, other, high]

def shift (table : List (Nat × Nat × Nat × Int)) (c : Char) : Char :=
  match table.find? fun (first, last, step, _) =>
      first ≤ c.toNat && c.toNat ≤ last && (c.toNat - first) % step == 0 with
  | some (_, _, _, d) => Char.ofNat (c.toNat + d).toNat
  | none => c

def capitalForm (c : Char) : List Char :=
  if isAscii c then [c.toUpper]
  else match upperExpansions.lookup c.toNat with
    | some codes => codes.map Char.ofNat
    | none => [shift upperShifts c]

/-- A dotted capital I keeps its dot as a combining mark. -/
def smallForm (c : Char) : List Char :=
  if isAscii c then [c.toLower]
  else if c == 'İ' then ['i', Char.ofNat 0x307]
  else [shift lowerShifts c]

/-- A capital sigma ends a word when a cased letter stands before it and none after, seen through
the marks between them. -/
def sigmaEndsWord (before after : List Char) : Bool :=
  ((before.dropWhile isCaseIgnorable).head?.any isCased) &&
    !((after.dropWhile isCaseIgnorable).head?.any isCased)

/-- The first argument holds what precedes, nearest character first. -/
def lowerFrom (before : List Char) : List Char → List Char
  | [] => []
  | c :: rest =>
    (if c == 'Σ' then [if sigmaEndsWord before rest then 'ς' else 'σ'] else smallForm c) ++
      lowerFrom (c :: before) rest

def lower (s : String) : String := String.ofList (lowerFrom [] s.toList)

def asciiLower (s : String) : String := String.ofList (s.toList.map Char.toLower)

end TypedClients.Text
