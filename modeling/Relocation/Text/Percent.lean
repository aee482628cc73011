import Relocation.Text.Utf8

/-!
Percent form of a text: letters, digits and the marks `-`, `_`, `.`, `~` stand for themselves,
every other byte of the UTF-8 form is written as `%` and two upper-case hexadecimal digits.
-/

set_option autoImplicit false

namespace Relocation.Text.Percent

def isPlain (b : UInt8) : Bool :=
  let n := b.toNat
  (48 ≤ n && n ≤ 57) || (65 ≤ n && n ≤ 90) || (97 ≤ n && n ≤ 122) ||
    n == 45 || n == 95 || n == 46 || n == 126

/-- The upper-case hexadecimal digit of a number below sixteen. -/
def hexDigit (n : Nat) : Char := Char.ofNat (if n < 10 then 48 + n else 55 + n)

/-- The number of a hexadecimal digit of either case. -/
def hexValue? (c : Char) : Option Nat :=
  let n := c.toNat
  if 48 ≤ n ∧ n ≤ 57 then some (n - 48)
  else if 65 ≤ n ∧ n ≤ 70 then some (n - 55)
  else if 97 ≤ n ∧ n ≤ 102 then some (n - 87)
  else none

def encodeByte (b : UInt8) : List Char :=
  if isPlain b then [Char.ofNat b.toNat]
  else ['%', hexDigit (b.toNat / 16), hexDigit (b.toNat % 16)]

def encodeBytes (bytes : List UInt8) : List Char := bytes.flatMap encodeByte

def encode (s : String) : String := String.ofList (encodeBytes (bytes s))

/-- Reads a percent form back; a `%` without two digits after it, or a character beyond a byte,
is refused. -/
def decodeBytes : List Char → Option (List UInt8)
  | [] => some []
  | '%' :: hi :: lo :: rest => do
    let high ← hexValue? hi
    let low ← hexValue? lo
    let bytes ← decodeBytes rest
    return UInt8.ofNat (16 * high + low) :: bytes
  | c :: rest =>
    if c = '%' ∨ 128 ≤ c.toNat then none
    else (decodeBytes rest).map (UInt8.ofNat c.toNat :: ·)

def decode (s : String) : Option String := do
  let bytes ← decodeBytes s.toList
  String.fromUTF8? ⟨bytes.toArray⟩

end Relocation.Text.Percent
