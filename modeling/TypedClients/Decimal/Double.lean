namespace TypedClients.Decimal

/-- A number in 64-bit binary floating point, held as its bit pattern. -/
structure Double where
  bits : UInt64
deriving DecidableEq, Repr, Inhabited

namespace Double

def negative (d : Double) : Bool := Nat.pow 2 63 ≤ d.bits.toNat

def exponentField (d : Double) : Nat := d.bits.toNat / Nat.pow 2 52 % Nat.pow 2 11

def fractionField (d : Double) : Nat := d.bits.toNat % Nat.pow 2 52

def isFinite (d : Double) : Bool := d.exponentField != 2047

def isNaN (d : Double) : Bool := d.exponentField == 2047 && d.fractionField != 0

/-- The magnitude of a finite number is `significand * 2 ^ exponent`. -/
def significand (d : Double) : Nat :=
  if d.exponentField = 0 then d.fractionField else Nat.pow 2 52 + d.fractionField

def exponent (d : Double) : Int := max d.exponentField 1 - 1075

/-- Every finite number is a whole multiple of `2 ^ -1074`; this is the multiple. -/
def scaled (d : Double) : Int :=
  let magnitude := d.significand * Nat.pow 2 (d.exponent + 1074).toNat
  if d.negative then -magnitude else magnitude

def signBit (negative : Bool) : Nat := if negative then Nat.pow 2 63 else 0

def zero (negative : Bool) : Double := ⟨UInt64.ofNat (signBit negative)⟩

def infinity (negative : Bool) : Double :=
  ⟨UInt64.ofNat (signBit negative + 2047 * Nat.pow 2 52)⟩

def nan : Double := ⟨UInt64.ofNat (2047 * Nat.pow 2 52 + Nat.pow 2 51)⟩

def roundQuotient (num den : Nat) : Nat :=
  let q := num / den
  let r := num % den
  if 2 * r < den then q else if 2 * r = den ∧ q % 2 = 0 then q else q + 1

def binaryExponent (num den : Nat) : Int :=
  let k : Int := (num.log2 : Int) - den.log2
  if den * Nat.pow 2 k.toNat ≤ num * Nat.pow 2 (-k).toNat then k else k - 1

/-- The number nearest to `num / den`, ties to even; too large a quotient is infinite. -/
def ofRatio (negative : Bool) (num den : Nat) : Double :=
  if num = 0 ∨ den = 0 then zero negative
  else
    let e := max (binaryExponent num den - 52) (-1074)
    let q := roundQuotient (num * Nat.pow 2 (-e).toNat) (den * Nat.pow 2 e.toNat)
    let magnitude := (e + 1074).toNat * Nat.pow 2 52 + q
    if 2047 * Nat.pow 2 52 ≤ magnitude then infinity negative
    else ⟨UInt64.ofNat (signBit negative + magnitude)⟩

def ofInt (i : Int) : Double := ofRatio (i < 0) i.natAbs 1

/-- The number nearest to `digits * 10 ^ exponent`. Exponents beyond the range of the format are
decided by the number of digits alone. -/
def ofDecimal (negative : Bool) (digits : Nat) (exponent : Int) : Double :=
  let size : Int := (Nat.toDigits 10 digits).length
  if digits = 0 ∨ exponent + size < -330 then zero negative
  else if exponent > 400 then infinity negative
  else ofRatio negative (digits * Nat.pow 10 exponent.toNat) (Nat.pow 10 (-exponent).toNat)

def magnitudeRatio (d : Double) : Nat × Nat :=
  (d.significand * Nat.pow 2 d.exponent.toNat, Nat.pow 2 (-d.exponent).toNat)

def mul (a b : Double) : Double :=
  let (n, d) := a.magnitudeRatio
  let (n', d') := b.magnitudeRatio
  ofRatio (a.negative != b.negative) (n * n') (d * d')

def div (a b : Double) : Double :=
  let (n, d) := a.magnitudeRatio
  let (n', d') := b.magnitudeRatio
  ofRatio (a.negative != b.negative) (n * d') (d * n')

def neg (a : Double) : Double :=
  let sign := Nat.pow 2 63
  ⟨UInt64.ofNat (if a.negative then a.bits.toNat - sign else a.bits.toNat + sign)⟩

def isZero (a : Double) : Bool := a.significand == 0

def toInt? (a : Double) : Option Int :=
  if a.isFinite then
    let (n, d) := a.magnitudeRatio
    if n % d = 0 then some (if a.negative then -((n / d : Nat) : Int) else (n / d : Nat)) else none
  else none

end Double

end TypedClients.Decimal
