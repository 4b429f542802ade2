import TypedClients.Decimal.Double

namespace TypedClients.Decimal

structure Scaled where
  digits : Nat
  exponent : Int
deriving DecidableEq, Repr

def Scaled.ratio (d : Scaled) : Nat × Nat :=
  (d.digits * Nat.pow 10 d.exponent.toNat, Nat.pow 10 (-d.exponent).toNat)

def stripZeros (fuel : Nat) (d : Scaled) : Scaled :=
  match fuel with
  | 0 => d
  | fuel + 1 =>
    if d.digits ≠ 0 ∧ d.digits % 10 = 0 then stripZeros fuel ⟨d.digits / 10, d.exponent + 1⟩ else d

/-- The reals that round to a finite number, in quarters of its last place. -/
structure Interval where
  low : Nat
  high : Nat
  closed : Bool

def Double.interval (d : Double) : Interval where
  low := if d.fractionField = 0 ∧ 1 < d.exponentField then 4 * d.significand - 1
    else 4 * d.significand - 2
  high := 4 * d.significand + 2
  closed := d.significand % 2 = 0

def Interval.contains (i : Interval) (q : Int) (d : Scaled) : Bool :=
  let (n, m) := d.ratio
  let point := n * Nat.pow 2 (2 - q).toNat
  let unit := m * Nat.pow 2 (q - 2).toNat
  if i.closed then i.low * unit ≤ point && point ≤ i.high * unit
  else i.low * unit < point && point < i.high * unit

def decimalExponent (num den : Nat) : Int :=
  let k : Int := (Nat.toDigits 10 num).length - (Nat.toDigits 10 den).length
  if den * Nat.pow 10 k.toNat ≤ num * Nat.pow 10 (-k).toNat then k else k - 1

/-- The neighbour on the grid of step `10 ^ e` that rounds back to the number: of two the nearer,
at equal distance the even one. -/
def gridPoint? (d : Double) (e : Int) : Option Scaled :=
  let (n, m) := d.magnitudeRatio
  let num := n * Nat.pow 10 (-e).toNat
  let den := m * Nat.pow 10 e.toNat
  let below : Scaled := ⟨num / den, e⟩
  let above : Scaled := ⟨num / den + 1, e⟩
  let fits := d.interval.contains d.exponent
  match fits below, fits above with
  | true, true =>
    let r := 2 * (num % den)
    some (if r < den ∨ (r = den ∧ below.digits % 2 = 0) then below else above)
  | true, false => some below
  | false, true => some above
  | false, false => none

def firstGridPoint (d : Double) (leading : Int) : (tries digits : Nat) → Scaled
  | 0, _ => ⟨d.significand, 0⟩
  | tries + 1, digits =>
    match gridPoint? d (leading - digits) with
    | some p => p
    | none => firstGridPoint d leading tries (digits + 1)

/-- The fewest decimal digits that round back to the magnitude of a finite number. -/
def shortest (d : Double) : Scaled :=
  if d.isZero then ⟨0, 0⟩
  else
    let (n, m) := d.magnitudeRatio
    stripZeros 20 (firstGridPoint d (decimalExponent n m) 18 0)

end TypedClients.Decimal
