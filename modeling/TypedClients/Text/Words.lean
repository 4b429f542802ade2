import TypedClients.Text.Letter

namespace TypedClients.Text

inductive CaseMode where
  | boundary
  | small
  | capital
deriving DecidableEq, Repr

def CaseMode.after (mode : CaseMode) (c : Char) : CaseMode :=
  if isLowercase c then .small else if isUppercase c then .capital else mode

/-- Splits a run of letters and digits: a word ends before a capital that follows a small letter,
and before the last capital of a run of capitals that a small letter follows. The word read so far
is kept in reverse. -/
def splitCase (mode : CaseMode) (word : List Char) : List Char → List (List Char)
  | [] => []
  | [c] => [(c :: word).reverse]
  | c :: next :: rest =>
    if mode.after c = .small ∧ isUppercase next then
      (c :: word).reverse :: splitCase .boundary [] (next :: rest)
    else if mode = .capital ∧ isUppercase c ∧ isLowercase next then
      word.reverse :: splitCase .boundary [c] (next :: rest)
    else splitCase (mode.after c) (c :: word) (next :: rest)

def runs (p : Char → Bool) (run : List Char) : List Char → List (List Char)
  | [] => if run.isEmpty then [] else [run.reverse]
  | c :: rest =>
    if p c then runs p (c :: run) rest
    else if run.isEmpty then runs p [] rest
    else run.reverse :: runs p [] rest

def words (s : List Char) : List (List Char) :=
  (runs isAlphanumeric [] s).flatMap (splitCase .boundary [])

def smallWord : List Char → List Char
  | [] => []
  | [c] => if c == 'Σ' then ['ς'] else smallForm c
  | c :: rest => smallForm c ++ smallWord rest

def capitalWord : List Char → List Char
  | [] => []
  | c :: rest => capitalForm c ++ smallWord rest

def pascal (s : List Char) : List Char := (words s).flatMap capitalWord

def camel (s : List Char) : List Char :=
  match words s with
  | [] => []
  | first :: rest => smallWord first ++ rest.flatMap capitalWord

end TypedClients.Text
