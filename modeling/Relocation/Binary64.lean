/-!
Binary floating point of 64 bits in exact arithmetic: rounding a ratio to the nearest number with
ties to even, the operations built on it, and the shortest decimal that rounds to a number.
-/

set_option autoImplicit false

namespace Relocation

/-- A number of the 64-bit binary format, by its bits. -/
structure Binary64 where
  bits : UInt64
  deriving DecidableEq, Repr, Inhabited

namespace Binary64

def signBit : Nat := 0x8000000000000000

/-- The number of fractions that share an exponent, two to the power of 52. -/
def fractionSize : Nat := 0x10000000000000

def negative (x : Binary64) : Bool := signBit ≤ x.bits.toNat

def magnitudeBits (x : Binary64) : Nat := x.bits.toNat % signBit

def isZero (x : Binary64) : Bool := x.magnitudeBits == 0

def infinityBits : Nat := 2047 * fractionSize

/-- Whether the number is neither infinite nor undefined. -/
def isFinite (x : Binary64) : Bool := x.magnitudeBits < infinityBits

/-- The integer factor of a finite number `m · 2 ^ q`. -/
def mantissa (x : Binary64) : Nat :=
  if x.magnitudeBits < fractionSize then x.magnitudeBits
  else fractionSize + x.magnitudeBits % fractionSize

/-- The exponent of two of a finite number `m · 2 ^ q`. -/
def exponent (x : Binary64) : Int :=
  if x.magnitudeBits < fractionSize then -1074 else (x.magnitudeBits / fractionSize : Nat) - 1075

def ofParts (negative : Bool) (magnitude : Nat) : Binary64 :=
  ⟨UInt64.ofNat ((if negative then signBit else 0) + magnitude)⟩

/-- `x · 2 ^ e` as a numerator and a denominator. -/
def scaled (num den : Nat) (e : Int) : Nat × Nat :=
  if 0 ≤ e then (num * Nat.pow 2 e.toNat, den) else (num, den * Nat.pow 2 (-e).toNat)

/-- The nearest integer to a ratio; of two the even one. -/
def roundRatio (num den : Nat) : Nat :=
  let floor := num / den
  let rest := num % den
  if 2 * rest < den then floor
  else if 2 * rest > den then floor + 1
  else if floor % 2 = 0 then floor else floor + 1

/-- The exponent of two of the highest bit of a positive ratio. -/
def logTwo (num den : Nat) : Int :=
  let guess : Int := (Nat.log2 num : Int) - Nat.log2 den
  let (n, d) := scaled num den (-guess)
  if n < d then guess - 1 else guess

/-- The number nearest to a ratio, ties to even; beyond the largest number it is infinite. -/
def ofRatio (negative : Bool) (num den : Nat) : Binary64 :=
  if num = 0 then ofParts negative 0
  else
    let q := max (logTwo num den - 52) (-1074)
    let (n, d) := scaled num den (-q)
    let magnitude := (q + 1074).toNat * fractionSize + roundRatio n d
    ofParts negative (min magnitude infinityBits)

def ofNat (n : Nat) : Binary64 := ofRatio false n 1

/-- The size of a finite number as a numerator and a denominator. -/
def ratio (x : Binary64) : Nat × Nat := scaled x.mantissa 1 x.exponent

def mul (x y : Binary64) : Binary64 :=
  ofRatio (x.negative != y.negative) (x.ratio.1 * y.ratio.1) (x.ratio.2 * y.ratio.2)

/-- The rounded quotient of two finite numbers, the second not zero. -/
def div (x y : Binary64) : Binary64 :=
  ofRatio (x.negative != y.negative) (x.ratio.1 * y.ratio.2) (x.ratio.2 * y.ratio.1)

/-- The rounded sum of two finite numbers that are not negative. -/
def add (x y : Binary64) : Binary64 :=
  ofRatio false (x.ratio.1 * y.ratio.2 + y.ratio.1 * x.ratio.2) (x.ratio.2 * y.ratio.2)

def neg (x : Binary64) : Binary64 := ofParts (!x.negative) x.magnitudeBits

def powTen (n : Nat) : Binary64 := ofNat (Nat.pow 10 n)

/-- A decimal `digits · 10 ^ exponent`. -/
structure Decimal where
  digits : Nat
  exponent : Int
  deriving DecidableEq, Repr

/-- The largest exponent of ten not above a positive ratio. -/
def logTen (num den : Nat) : Int :=
  let guess := logTwo num den * 1233 / 4096
  let reaches (e : Int) : Bool :=
    if 0 ≤ e then den * Nat.pow 10 e.toNat ≤ num else den ≤ num * Nat.pow 10 (-e).toNat
  if reaches (guess + 1) then guess + 1
  else if reaches guess then guess
  else guess - 1

/-- The decimals of a grid next to a value and inside an interval around it: all are given over
one denominator, and the nearer one wins, of two equally near the even one. -/
def nearestOnGrid (low value high den : Nat) (closed : Bool) (e : Int) : Option Nat :=
  let unit := if 0 ≤ e then den * Nat.pow 10 e.toNat else den
  let lift := if 0 ≤ e then 1 else Nat.pow 10 (-e).toNat
  let inside (t : Nat) : Bool :=
    if closed then low * lift ≤ t * unit && t * unit ≤ high * lift
    else low * lift < t * unit && t * unit < high * lift
  let floor := value * lift / unit
  let rest := value * lift % unit
  let below := inside floor
  let above := inside (floor + 1)
  if below && above then
    if 2 * rest < unit then some floor
    else if 2 * rest > unit then some (floor + 1)
    else if floor % 2 = 0 then some floor else some (floor + 1)
  else if below then some floor
  else if above then some (floor + 1)
  else none

/-- Moves zeros at the end of the digits into the exponent. -/
def Decimal.trim (fuel : Nat) (d : Decimal) : Decimal :=
  match fuel with
  | 0 => d
  | fuel + 1 =>
    if d.digits ≠ 0 ∧ d.digits % 10 = 0 then Decimal.trim fuel ⟨d.digits / 10, d.exponent + 1⟩
    else d

/-- The first grid with a decimal in the interval, from coarse to fine. -/
def searchGrids (low value high den : Nat) (closed : Bool) : (count : Nat) → Int → Decimal
  | 0, e => ⟨0, e⟩
  | count + 1, e =>
    match nearestOnGrid low value high den closed e with
    | some digits => ⟨digits, e⟩
    | none => searchGrids low value high den closed count (e - 1)

/-- The decimal with the fewest digits that rounds to a positive finite number, and of those the
nearest one. -/
def shortest (x : Binary64) : Decimal :=
  let m := x.mantissa
  let lowGap := if m = fractionSize ∧ -1074 < x.exponent then 1 else 2
  let (one, den) := scaled 1 1 (x.exponent - 2)
  let value := 4 * m * one
  (searchGrids ((4 * m - lowGap) * one) value ((4 * m + 2) * one) den (m % 2 = 0) 20
    (logTen value den)).trim 20

/-- The digits of a decimal with a point in their midst and zeros where places are empty; `whole`
is added when there is no fraction. -/
def positional (d : Decimal) (whole : String) : String :=
  let digits := (Nat.toDigits 10 d.digits)
  if 0 ≤ d.exponent then
    String.ofList (digits ++ List.replicate d.exponent.toNat '0') ++ whole
  else
    let places := (-d.exponent).toNat
    if places < digits.length then
      String.ofList (digits.take (digits.length - places)) ++ "." ++
        String.ofList (digits.drop (digits.length - places))
    else "0." ++ String.ofList (List.replicate (places - digits.length) '0' ++ digits)

/-- Text of a finite number for measurements: always positional, without a fraction when there is
none. -/
def plainText (x : Binary64) : String :=
  (if x.negative then "-" else "") ++ if x.isZero then "0" else positional x.shortest ""

/-- Text of a finite number in documents: positional with a fraction between 10⁻⁵ and 10¹⁶, beyond
with an exponent of a sign and at least two digits. -/
def documentText (x : Binary64) : String :=
  let sign := if x.negative then "-" else ""
  if x.isZero then sign ++ "0.0"
  else
    let d := x.shortest
    let digits := Nat.toDigits 10 d.digits
    let scale : Int := d.exponent + digits.length - 1
    if -5 ≤ scale ∧ scale < 16 then sign ++ positional d ".0"
    else
      let fraction := digits.drop 1
      let places := Nat.toDigits 10 scale.natAbs
      sign ++ String.ofList (digits.take 1) ++
        (if fraction.isEmpty then "" else "." ++ String.ofList fraction) ++
        (if scale < 0 then "e-" else "e+") ++
        (if places.length < 2 then "0" else "") ++ String.ofList places

end Binary64

end Relocation
