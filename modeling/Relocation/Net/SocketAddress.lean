/-!
Addresses at which a server listens: an address of the internet protocol, version 4 or 6, and a
port.
-/

set_option autoImplicit false

namespace Relocation.Net

/-- An address of a host: four bytes, or eight groups of 16 bits. -/
inductive IpAddress
  | four (bytes : List Nat)
  | six (groups : List Nat)
  deriving DecidableEq, Repr

/-- An address at which a server listens. -/
structure SocketAddress where
  host : IpAddress
  port : Nat
  deriving DecidableEq, Repr

def digit? (base : Nat) (c : Char) : Option Nat :=
  let n := c.toNat
  let d := if '0'.toNat ≤ n && n ≤ '9'.toNat then some (n - '0'.toNat)
    else if 'a'.toNat ≤ n && n ≤ 'f'.toNat then some (n - 'a'.toNat + 10)
    else if 'A'.toNat ≤ n && n ≤ 'F'.toNat then some (n - 'A'.toNat + 10)
    else none
  d.filter (· < base)

def numeral? (base : Nat) : List Char → Option Nat
  | [] => none
  | cs => cs.foldl (fun n c => do return (← n) * base + (← digit? base c)) (some 0)

def port? (cs : List Char) : Option Nat := (numeral? 10 cs).filter (· < 65536)

/-- A byte in decimal, without a zero before other digits. -/
def byte? (cs : List Char) : Option Nat :=
  if cs.length ≤ 3 && (cs.length ≤ 1 || cs.head? != some '0') then
    (numeral? 10 cs).filter (· < 256)
  else none

def group? (cs : List Char) : Option Nat :=
  if cs.length ≤ 4 then numeral? 16 cs else none

/-- The groups of a text between colons; an empty text has none. -/
def groups? (s : String) : Option (List Nat) :=
  if s.isEmpty then some [] else (s.splitOn ":").mapM fun p => group? p.toList

/-- Eight groups; two colons in a row stand for as many zero groups as are missing. -/
def six? (s : String) : Option IpAddress :=
  match s.splitOn "::" with
  | [all] => do
    let gs ← groups? all
    if gs.length = 8 then some (.six gs) else none
  | [before, after] => do
    let (b, a) := (← groups? before, ← groups? after)
    if b.length + a.length < 8 then
      some (.six (b ++ List.replicate (8 - b.length - a.length) 0 ++ a))
    else none
  | _ => none

def four? (s : String) : Option IpAddress := do
  let bytes ← (s.splitOn ".").mapM fun p => byte? p.toList
  if bytes.length = 4 then some (.four bytes) else none

namespace SocketAddress

/-- An address from its text: the host, between brackets for version 6, a colon and the port. -/
def ofText? (s : String) : Option SocketAddress :=
  match s.toList with
  | '[' :: cs =>
    match cs.dropWhile (· ≠ ']') with
    | ']' :: ':' :: port => do
      return ⟨← six? (String.ofList (cs.takeWhile (· ≠ ']'))), ← port? port⟩
    | _ => none
  | cs =>
    match cs.dropWhile (· ≠ ':') with
    | ':' :: port => do return ⟨← four? (String.ofList (cs.takeWhile (· ≠ ':'))), ← port? port⟩
    | _ => none

/-- The length of the run of zero groups at the start of a list. -/
def zeroRun (gs : List Nat) : Nat := (gs.takeWhile (· = 0)).length

/-- Where the longest run of zero groups starts, the first of several, and its length. -/
def longestZeroRun : Nat → List Nat → Nat × Nat
  | _, [] => (0, 0)
  | i, g :: gs =>
    let later := longestZeroRun (i + 1) gs
    let here := zeroRun (g :: gs)
    if later.2 ≤ here then (i, here) else later

def groupsText (gs : List Nat) : String :=
  ":".intercalate (gs.map fun g => String.ofList (Nat.toDigits 16 g))

/-- The text of a host. The longest run of two or more zero groups is left out. -/
def hostText : IpAddress → String
  | .four bytes => ".".intercalate (bytes.map Nat.repr)
  | .six gs =>
    let (start, length) := longestZeroRun 0 gs
    if 2 ≤ length then
      "[" ++ groupsText (gs.take start) ++ "::" ++ groupsText (gs.drop (start + length)) ++ "]"
    else "[" ++ groupsText gs ++ "]"

def text (a : SocketAddress) : String := hostText a.host ++ ":" ++ a.port.repr

/-- Whether any host can listen at the address: it means the host itself, or all its addresses. -/
def isLocal (a : SocketAddress) : Bool :=
  match a.host with
  | .four bytes => bytes.head? = some 127 || bytes.all (· = 0)
  | .six gs => (gs.take 7).all (· = 0) && (gs.drop 7).all (· ≤ 1)

end SocketAddress

end Relocation.Net
