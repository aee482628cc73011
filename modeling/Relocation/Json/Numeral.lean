import Relocation.Json.Source

/-!
Numbers as they stand in a text. An integer that fits in 64 bits stays exact. Any other number is
rounded in two steps: its leading digits, as many as fit in 64 bits, become a binary64 number, and
that is multiplied or divided by a power of ten.
-/

set_option autoImplicit false

namespace Relocation.Json

/-- A number in its parts, digits as numbers. -/
structure Numeral where
  negative : Bool
  whole : List Nat
  fraction : Option (List Nat)
  exponent : Option Int
  deriving DecidableEq, Repr

namespace Numeral

def digit? (c : Char) : Option Nat :=
  if 48 ≤ c.toNat ∧ c.toNat ≤ 57 then some (c.toNat - 48) else none

/-- The digits that a text starts with, and the rest. -/
def digits : List Char → List Nat × List Char
  | [] => ([], [])
  | c :: rest =>
    match digit? c with
    | none => ([], c :: rest)
    | some d => (d :: (digits rest).1, (digits rest).2)

def ofDigits (ds : List Nat) : Nat := ds.foldl (fun n d => 10 * n + d) 0

/-- A defect where a digit is missing: a text that ends there is called incomplete only by a
reader. -/
def digitMissing (rest : List Char) : Defect :=
  if rest.isEmpty then ⟨.truncated, some .malformed⟩ else .plain .malformed

/-- The digits before the point: no zero stands before another digit. -/
def readWhole (s : List Char) : Except Defect (List Nat × List Char) :=
  match digits s with
  | ([], rest) => .error (digitMissing rest)
  | (0 :: _ :: _, _) => .error (.plain .malformed)
  | r => .ok r

def readFraction : List Char → Except Defect (Option (List Nat) × List Char)
  | '.' :: s =>
    match digits s with
    | ([], rest) => .error (digitMissing rest)
    | (ds, rest) => .ok (some ds, rest)
  | s => .ok (none, s)

/-- The sign before an exponent, if there is one, and the rest. -/
def exponentSign : List Char → Bool × List Char
  | '+' :: s => (false, s)
  | '-' :: s => (true, s)
  | s => (false, s)

def readExponent : List Char → Except Defect (Option Int × List Char)
  | c :: s =>
    if c = 'e' ∨ c = 'E' then
      let (negative, s) := exponentSign s
      match digits s with
      | ([], rest) => .error (digitMissing rest)
      | (ds, rest) =>
        .ok (some (if negative then -(ofDigits ds : Int) else ofDigits ds), rest)
    else .ok (none, c :: s)
  | [] => .ok (none, [])

/-- The sign before a number, if there is one, and the rest. -/
def sign : List Char → Bool × List Char
  | '-' :: s => (true, s)
  | s => (false, s)

def read (s : List Char) : Except Defect (Numeral × List Char) := do
  let (negative, s) := sign s
  let (whole, s) ← readWhole s
  let (fraction, s) ← readFraction s
  let (exponent, s) ← readExponent s
  return (⟨negative, whole, fraction, exponent⟩, s)

/-- Appends digits to a number as long as it fits in 64 bits; gives also how many are left over. -/
def absorb (n : Nat) : List Nat → Nat × Nat
  | [] => (n, 0)
  | d :: ds =>
    if 10 * n + d < 0x10000000000000000 then absorb (10 * n + d) ds else (n, ds.length + 1)

/-- `x · 10 ^ e` in steps that powers of ten up to 308 allow; none when it is too large. -/
def scale : (fuel : Nat) → Binary64 → Int → Option Binary64
  | 0, x, _ => some x
  | fuel + 1, x, e =>
    if 0 ≤ e ∧ e ≤ 308 then
      let y := x.mul (Binary64.powTen e.toNat)
      if y.isFinite then some y else none
    else if -308 ≤ e ∧ e < 0 then some (x.div (Binary64.powTen (-e).toNat))
    else if x.isZero then some x
    else if 0 ≤ e then none
    else scale fuel (x.div (Binary64.powTen 308)) (e + 308)

/-- The number rounded in two steps; none when it is too large. -/
def toFloat (n : Numeral) : Option Number := do
  let (head, left) := absorb 0 n.whole
  let decimals := n.fraction.getD []
  let (significand, unread) := absorb head decimals
  let e : Int := left - (decimals.length - unread : Nat) + n.exponent.getD 0
  let x ← scale (e.natAbs + 1) (Binary64.ofNat significand) e
  return .float (if n.negative then x.neg else x)

/-- The integer of a sign and a size, if it is kept exactly; zero with a minus sign is not. -/
def exactInt? (negative : Bool) (size : Nat) : Option Number :=
  let i : Int := if negative then -(size : Int) else size
  if h : IsExact i then if negative ∧ size = 0 then none else some (.int i h) else none

/-- The number that is meant; none when it is too large. -/
def number? (n : Numeral) : Option Number :=
  match n.fraction, n.exponent, exactInt? n.negative (ofDigits n.whole) with
  | none, none, some i => some i
  | _, _, _ => n.toFloat

end Numeral

end Relocation.Json
