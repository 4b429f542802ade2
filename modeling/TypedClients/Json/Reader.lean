import TypedClients.Json.Value

namespace TypedClients.Json

open Decimal (Double)

inductive Token where
  | openBracket
  | closeBracket
  | openBrace
  | closeBrace
  | comma
  | colon
  | text (value : String)
  | word (chars : List Char)
deriving DecidableEq, Repr

def mark? (c : Char) : Option Token :=
  if c == '[' then some .openBracket
  else if c == ']' then some .closeBracket
  else if c == '{' then some .openBrace
  else if c == '}' then some .closeBrace
  else if c == ',' then some .comma
  else if c == ':' then some .colon
  else none

def isSpace (c : Char) : Bool := c == ' ' || c == '\n' || c == '\t' || c == '\r'

def isWordChar (c : Char) : Bool := c.isAlphanum || c == '+' || c == '-' || c == '.'

def hexValue? (c : Char) : Option Nat :=
  if c.isDigit then some (c.toNat - 48)
  else if 97 ≤ c.toNat ∧ c.toNat ≤ 102 then some (c.toNat - 87)
  else if 65 ≤ c.toNat ∧ c.toNat ≤ 70 then some (c.toNat - 55)
  else none

def simpleEscape? (c : Char) : Option Char :=
  if c == '"' || c == '\\' || c == '/' then some c
  else if c == 'b' then some (Char.ofNat 8)
  else if c == 'f' then some (Char.ofNat 12)
  else if c == 'n' then some '\n'
  else if c == 'r' then some '\r'
  else if c == 't' then some '\t'
  else none

/-- Where the scanner stands inside a text. `high` is the first half of a pair of code units that
waits for its second half. -/
inductive QuoteState where
  | plain
  | escape
  | code (digits value : Nat)
deriving DecidableEq, Repr

inductive ScanState where
  | between
  | word (chars : List Char)
  | quoted (chars : List Char) (high : Option Nat) (state : QuoteState)

def isHighHalf (n : Nat) : Bool := 0xD800 ≤ n && n < 0xDC00

def isLowHalf (n : Nat) : Bool := 0xDC00 ≤ n && n < 0xE000

/-- A half of a pair stands only beside its other half. -/
def closeCode (chars : List Char) (high : Option Nat) (value : Nat) : Option ScanState :=
  match high with
  | some h =>
    if isLowHalf value then
      some (.quoted (Char.ofNat (0x10000 + (h - 0xD800) * 0x400 + (value - 0xDC00)) :: chars)
        none .plain)
    else none
  | none =>
    if isHighHalf value then some (.quoted chars (some value) .plain)
    else if isLowHalf value then none
    else some (.quoted (Char.ofNat value :: chars) none .plain)

def outside (c : Char) (tokens : List Token) : Option (ScanState × List Token) :=
  match mark? c with
  | some t => some (.between, t :: tokens)
  | none =>
    if isSpace c then some (.between, tokens)
    else if c == '"' then some (.quoted [] none .plain, tokens)
    else if isWordChar c then some (.word [c], tokens)
    else none

def inside (chars : List Char) (high : Option Nat) (state : QuoteState) (c : Char) :
    Option (ScanState ⊕ String) :=
  match state with
  | .plain =>
    if high.isSome && c != '\\' then none
    else if c == '"' then some (.inr (String.ofList chars.reverse))
    else if c == '\\' then some (.inl (.quoted chars high .escape))
    else if c.toNat < 32 then none
    else some (.inl (.quoted (c :: chars) none .plain))
  | .escape =>
    if c == 'u' then some (.inl (.quoted chars high (.code 0 0)))
    else if high.isSome then none
    else (simpleEscape? c).map fun e => .inl (.quoted (e :: chars) none .plain)
  | .code digits value =>
    match hexValue? c with
    | none => none
    | some v =>
      let value := value * 16 + v
      if digits = 3 then (closeCode chars high value).map .inl
      else some (.inl (.quoted chars high (.code (digits + 1) value)))

def scan : ScanState → List Token → List Char → Option (List Token)
  | .between, tokens, [] => some tokens.reverse
  | .word chars, tokens, [] => some ((Token.word chars.reverse :: tokens).reverse)
  | .quoted .., _, [] => none
  | .between, tokens, c :: rest =>
    match outside c tokens with
    | some (state, tokens) => scan state tokens rest
    | none => none
  | .word chars, tokens, c :: rest =>
    if isWordChar c then scan (.word (c :: chars)) tokens rest
    else match outside c (.word chars.reverse :: tokens) with
      | some (state, tokens) => scan state tokens rest
      | none => none
  | .quoted chars high state, tokens, c :: rest =>
    match inside chars high state c with
    | some (.inl state) => scan state tokens rest
    | some (.inr s) => scan .between (.text s :: tokens) rest
    | none => none

def maxSignificand : Nat := Nat.pow 2 64 - 1

def digitsOf (cs : List Char) : List Nat := cs.map fun c => c.toNat - 48

/-- Takes digits while they fit; answers the significand and the number of digits left over. -/
def takeDigits (significand : Nat) : List Nat → Nat × Nat
  | [] => (significand, 0)
  | d :: rest =>
    if significand * 10 + d ≤ maxSignificand then takeDigits (significand * 10 + d) rest
    else (significand, rest.length + 1)

structure NumberParts where
  negative : Bool
  whole : List Char
  fraction : Option (List Char)
  exponent : Option (Bool × List Char)
deriving Repr

def splitSign (cs : List Char) : Bool × List Char :=
  match cs with
  | '-' :: rest => (true, rest)
  | _ => (false, cs)

def numberParts? (cs : List Char) : Option NumberParts :=
  let (negative, cs) := splitSign cs
  let whole := cs.takeWhile Char.isDigit
  let rest := cs.dropWhile Char.isDigit
  let (fraction, rest) := match rest with
    | '.' :: rest => (some (rest.takeWhile Char.isDigit), rest.dropWhile Char.isDigit)
    | _ => (none, rest)
  let exponent : Option (Option (Bool × List Char)) := match rest with
    | [] => some none
    | c :: rest =>
      if c == 'e' || c == 'E' then
        let (down, digits) := match rest with
          | '-' :: rest => (true, rest)
          | '+' :: rest => (false, rest)
          | _ => (false, rest)
        if digits.isEmpty || !digits.all Char.isDigit then none else some (some (down, digits))
      else none
  if whole.isEmpty || (whole.length > 1 && whole.head? == some '0') || fraction == some [] then none
  else exponent.map fun e => ⟨negative, whole, fraction, e⟩

def powerOfTen (n : Nat) : Double := Double.ofDecimal false 1 n

/-- Scales by a power of ten in steps of at most 308; each step rounds. -/
def scaleDown (fuel : Nat) (f : Double) (places : Nat) : Double :=
  match fuel with
  | 0 => f
  | fuel + 1 =>
    if places ≤ 308 then f.div (powerOfTen places)
    else if f.isZero then f
    else scaleDown fuel (f.div (powerOfTen 308)) (places - 308)

/-- Values too large for the format are refused. -/
def doubleOfParts? (negative : Bool) (significand : Nat) (exponent : Int) : Option Double :=
  let f := Double.ofInt significand
  let magnitude :=
    if 308 < exponent then if f.isZero then some f else none
    else if 0 ≤ exponent then
      let product := f.mul (powerOfTen exponent.toNat)
      if product.isFinite then some product else none
    else some (scaleDown 8 f (-exponent).toNat)
  magnitude.map fun m => if negative then m.neg else m

def exponentValue (digits : List Char) : Nat :=
  (digitsOf digits).foldl (fun acc d => min (acc * 10 + d) (Nat.pow 2 31)) 0

def NumberParts.double? (p : NumberParts) : Option Double :=
  let (significand, dropped) := takeDigits 0 (digitsOf p.whole)
  let fraction := digitsOf (p.fraction.getD [])
  let (significand, unread) := takeDigits significand fraction
  let start : Int := dropped - (fraction.length - unread : Nat)
  match p.exponent with
  | none => doubleOfParts? p.negative significand start
  | some (down, digits) =>
    let e := exponentValue digits
    if Nat.pow 2 31 ≤ e then
      if !down && significand != 0 then none else some (Double.zero p.negative)
    else
      doubleOfParts? p.negative significand (if down then start - (e : Int) else start + (e : Int))

def NumberParts.number? (p : NumberParts) : Option Number :=
  match p.fraction, p.exponent with
  | none, none =>
    let n : Nat := (digitsOf p.whole).foldl (fun acc d => acc * 10 + d) 0
    if p.negative then
      if 0 < n ∧ n ≤ Nat.pow 2 63 then some (.int (-n))
      else p.double?.map .double
    else if n ≤ maxSignificand then some (.int n)
    else p.double?.map .double
  | _, _ => p.double?.map .double

def word? (cs : List Char) : Option Json :=
  if cs = "null".toList then some .null
  else if cs = "true".toList then some (.bool true)
  else if cs = "false".toList then some (.bool false)
  else (numberParts? cs).bind fun p => p.number?.map .number

inductive Frame where
  | array (items : List Json)
  | object (fields : List (String × Json)) (key : String)

inductive Expecting where
  /-- A value; inside a list that is still empty also its end. -/
  | value (orEnd : Bool)
  /-- A key; inside an object that is still empty also its end. -/
  | key (fields : List (String × Json)) (orEnd : Bool)
  | colon (fields : List (String × Json)) (key : String)
  | separator
  | finished (value : Json)

structure ReadState where
  stack : List Frame
  expecting : Expecting

def maxDepth : Nat := 127

def complete (value : Json) : List Frame → ReadState
  | [] => ⟨[], .finished value⟩
  | .array items :: rest => ⟨.array (value :: items) :: rest, .separator⟩
  | .object fields key :: rest => ⟨.object ((key, value) :: fields) key :: rest, .separator⟩

def openFrame (frame : Frame) (expecting : Expecting) (stack : List Frame) : Option ReadState :=
  if stack.length < maxDepth then some ⟨frame :: stack, expecting⟩ else none

/-- The frame of an open object stands on the stack while its next key is awaited. -/
def step (s : ReadState) (t : Token) : Option ReadState :=
  match s.expecting, t with
  | .value _, .text v => some (complete (.text v) s.stack)
  | .value _, .word cs => (word? cs).map fun v => complete v s.stack
  | .value _, .openBracket => openFrame (.array []) (.value true) s.stack
  | .value _, .openBrace => openFrame (.object [] "") (.key [] true) s.stack
  | .value true, .closeBracket =>
    match s.stack with
    | .array items :: rest => some (complete (.array items.reverse) rest)
    | _ => none
  | .key fields _, .text k => some ⟨s.stack, .colon fields k⟩
  | .key fields true, .closeBrace => some (complete (ofPairs fields.reverse) s.stack.tail)
  | .colon fields k, .colon => some ⟨.object fields k :: s.stack.tail, .value false⟩
  | .separator, .comma =>
    match s.stack with
    | .array _ :: _ => some ⟨s.stack, .value false⟩
    | .object fields _ :: _ => some ⟨s.stack, .key fields false⟩
    | [] => none
  | .separator, .closeBracket =>
    match s.stack with
    | .array items :: rest => some (complete (.array items.reverse) rest)
    | _ => none
  | .separator, .closeBrace =>
    match s.stack with
    | .object fields _ :: rest => some (complete (ofPairs fields.reverse) rest)
    | _ => none
  | _, _ => none

/-- Reads one value that fills the whole text. A repeated key keeps its last value. -/
def read? (s : String) : Option Json := do
  let tokens ← scan .between [] s.toList
  let final ← tokens.foldlM step ⟨[], .value false⟩
  match final.expecting with
  | .finished v => some v
  | _ => none

end TypedClients.Json
