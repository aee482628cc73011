import Relocation.Text.Utf8

/-!
Base64 with the standard alphabet and canonical padding, over bytes. Reading is strict and says
where the first fault lies: whole groups of eight symbols are checked first, then the last group,
in which alone padding may stand.
-/

set_option autoImplicit false

namespace Relocation.Text.Base64

def symbol (n : Nat) : Char :=
  if n < 26 then Char.ofNat (65 + n)
  else if n < 52 then Char.ofNat (71 + n)
  else if n < 62 then Char.ofNat (n - 4)
  else if n = 62 then '+'
  else '/'

def value? (b : UInt8) : Option Nat :=
  let n := b.toNat
  if 65 ≤ n ∧ n ≤ 90 then some (n - 65)
  else if 97 ≤ n ∧ n ≤ 122 then some (n - 71)
  else if 48 ≤ n ∧ n ≤ 57 then some (n + 4)
  else if n = 43 then some 62
  else if n = 47 then some 63
  else none

def pad : UInt8 := 61

/-- Three bytes become four symbols; a shorter last group is padded. -/
def encodeBytes : List UInt8 → List Char
  | a :: b :: c :: rest =>
    let n := a.toNat * 65536 + b.toNat * 256 + c.toNat
    symbol (n / 262144) :: symbol (n / 4096 % 64) :: symbol (n / 64 % 64) :: symbol (n % 64) ::
      encodeBytes rest
  | [a, b] =>
    let n := a.toNat * 1024 + b.toNat * 4
    [symbol (n / 4096), symbol (n / 64 % 64), symbol (n % 64), '=']
  | [a] =>
    let n := a.toNat * 16
    [symbol (n / 64), symbol (n % 64), '=', '=']
  | [] => []

def encode (bytes : List UInt8) : String := String.ofList (encodeBytes bytes)

/-- Why a text is no base64. -/
inductive Fault
  | byte (b : UInt8) (offset : Nat)
  | length
  | padding
  | lastSymbol (b : UInt8) (offset : Nat)
  deriving DecidableEq, Repr

def Fault.message : Fault → String
  | .byte b offset => "Invalid byte " ++ b.toNat.repr ++ ", offset " ++ offset.repr ++ "."
  | .length => "Encoded text cannot have a 6-bit remainder."
  | .padding => "Invalid padding"
  | .lastSymbol b offset =>
    "Invalid last symbol " ++ b.toNat.repr ++ ", offset " ++ offset.repr ++ "."

/-- The numbers of symbols; the first byte that is none is a fault. -/
def values (offset : Nat) : List UInt8 → Except Fault (List Nat)
  | [] => .ok []
  | b :: rest =>
    match value? b with
    | none => .error (.byte b offset)
    | some n => (values (offset + 1) rest).map (n :: ·)

/-- Reads a last group from its symbols on: `index` counts within the group, `padded` is the index
of the first padding sign met. Gives the numbers and how many padding signs follow them. -/
def tailValues (start : Nat) : (index : Nat) → (padded : Option Nat) → List UInt8 →
    Except Fault (List Nat × Nat)
  | _, _, [] => .ok ([], 0)
  | index, padded, b :: rest =>
    if b = pad then
      if index % 4 < 2 then .error (.byte b (start + padded.getD index))
      else (tailValues start (index + 1) (some (padded.getD index)) rest).map
        fun r => (r.1, r.2 + 1)
    else
      match padded with
      | some first => .error (.byte pad (start + first))
      | none =>
        match value? b with
        | none => .error (.byte b (start + index))
        | some n => (tailValues start (index + 1) none rest).map fun r => (n :: r.1, r.2)

/-- Joins numbers of six bits into bytes; bits that fill no byte are dropped. -/
def join : List Nat → List UInt8
  | a :: b :: c :: d :: rest =>
    let n := a * 262144 + b * 4096 + c * 64 + d
    UInt8.ofNat (n / 65536) :: UInt8.ofNat (n / 256 % 256) :: UInt8.ofNat (n % 256) :: join rest
  | [a, b, c] =>
    let n := a * 4096 + b * 64 + c
    [UInt8.ofNat (n / 1024), UInt8.ofNat (n / 4 % 256)]
  | [a, b] => [UInt8.ofNat ((a * 64 + b) / 16)]
  | _ => []

/-- Whether the bits that fill no byte are all zero. -/
def cleanEnd (numbers : List Nat) : Bool :=
  match numbers.length % 4, numbers.getLast? with
  | 2, some n => n % 16 == 0
  | 3, some n => n % 4 == 0
  | _, _ => true

/-- Reads the last group, which starts at the offset. -/
def decodeTail (start : Nat) (tail : List UInt8) : Except Fault (List Nat) := do
  let (numbers, pads) ← tailValues start 0 none tail
  if !tail.isEmpty && numbers.length < 2 then .error .length
  else if (numbers.length + pads) % 4 ≠ 0 then .error .padding
  else if !cleanEnd numbers then
    .error (.lastSymbol (tail.getD (numbers.length - 1) 0) (start + numbers.length - 1))
  else .ok numbers

def decodeBytes (input : List UInt8) : Except Fault (List UInt8) :=
  if input.length % 4 = 1 then
    match input.getLast? with
    | some b => if b ≠ pad ∧ value? b = none then .error (.byte b (input.length - 1))
      else .error .length
    | none => .error .length
  else do
    let start := (input.length - 1) / 8 * 8
    let front ← values 0 (input.take start)
    let back ← decodeTail start (input.drop start)
    return join (front ++ back)

def decode (s : String) : Except Fault (List UInt8) := decodeBytes (bytes s)

end Relocation.Text.Base64
