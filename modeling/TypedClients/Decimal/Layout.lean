import TypedClients.Decimal.Shortest

namespace TypedClients.Decimal

def digitText (n : Nat) : String := String.ofList (Nat.toDigits 10 n)

theorem isDigit_of_mem_digitText {n : Nat} {c : Char} (h : c ∈ (digitText n).toList) :
    c.isDigit = true := by
  rw [digitText, String.toList_ofList] at h
  exact Nat.isDigit_of_mem_toDigits (by decide) (by decide) h

def zeros (n : Nat) : String := String.ofList (List.replicate n '0')

/-- Where a number leaves positional notation, and how it is spelled on either side. -/
structure Layout where
  /-- Positional while the position of the leading digit is at least this. -/
  least : Option Int
  /-- Positional while the position of the leading digit is below this. -/
  limit : Option Int
  keepFraction : Bool

def pointAt (keepFraction : Bool) (digits : String) (exponent : Int) : String :=
  if 0 ≤ exponent then
    digits ++ zeros exponent.toNat ++ (if keepFraction then ".0" else "")
  else
    let places := (-exponent).toNat
    let padded := zeros (places + 1 - digits.length) ++ digits
    let whole := padded.length - places
    String.ofList (padded.toList.take whole) ++ "." ++ String.ofList (padded.toList.drop whole)

def scientific (digits : String) (leading : Int) : String :=
  let mantissa := match digits.toList with
    | [] => ""
    | [c] => String.singleton c
    | c :: rest => String.singleton c ++ "." ++ String.ofList rest
  mantissa ++ "e" ++ (if leading < 0 then "-" else "+") ++ digitText leading.natAbs

def Layout.magnitude (layout : Layout) (p : Scaled) : String :=
  let digits := digitText p.digits
  let leading := p.exponent + digits.length - 1
  let tooSmall := match layout.least with
    | some k => leading < k
    | none => false
  let tooLarge := match layout.limit with
    | some k => k ≤ leading
    | none => false
  if tooSmall || tooLarge then scientific digits leading
  else pointAt layout.keepFraction digits p.exponent

def Layout.write (layout : Layout) (d : Double) : String :=
  if d.isNaN then "NaN"
  else
    let sign := if d.negative then "-" else ""
    if d.isFinite then sign ++ layout.magnitude (shortest d) else sign ++ "inf"

end TypedClients.Decimal
