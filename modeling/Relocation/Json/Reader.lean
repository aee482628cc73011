import Relocation.Json.Numeral
import Relocation.Text.Utf8

/-!
Reading JSON text into a tree. Reading goes on as long as the text can be made out; where it
cannot, the tree holds a defect and ends. A hundred and twenty-eighth level of nesting is a defect
for those who read it.
-/

set_option autoImplicit false

namespace Relocation.Json

/-- What was read and the text after it; none when the text cannot be made out any further. -/
abbrev Reading (α : Type) := α × Option (List Char)

/-- The text without the white space before it. -/
def skipSpace (s : List Char) : List Char :=
  s.dropWhile fun c => c = ' ' ∨ c = '\n' ∨ c = '\t' ∨ c = '\r'

def hexValue? (c : Char) : Option Nat :=
  let n := c.toNat
  if 48 ≤ n ∧ n ≤ 57 then some (n - 48)
  else if 65 ≤ n ∧ n ≤ 70 then some (n - 55)
  else if 97 ≤ n ∧ n ≤ 102 then some (n - 87)
  else none

/-- Four hexadecimal digits; fewer than four bytes of text are too few. -/
def hexFour (s : List Char) : Except Fault (Nat × List Char) :=
  let few : Except Fault (Nat × List Char) :=
    .error (if Text.byteCount s < 4 then .truncated else .malformed)
  match s with
  | a :: b :: c :: d :: rest =>
    match hexValue? a, hexValue? b, hexValue? c, hexValue? d with
    | some w, some x, some y, some z => .ok (4096 * w + 256 * x + 16 * y + z, rest)
    | _, _, _, _ => few
  | _ => few

def expect (m : Char) : List Char → Except Fault (List Char)
  | [] => .error .truncated
  | c :: rest => if c = m then .ok rest else .error .malformed

/-- The character of a numeric escape, given after `\u`: one unit, or two that form a pair. -/
def unicodeEscape (s : List Char) : Except Fault (Char × List Char) := do
  let (high, s) ← hexFour s
  if 0xdc00 ≤ high ∧ high ≤ 0xdfff then .error .malformed
  else if high < 0xd800 ∨ 0xdbff < high then return (Char.ofNat high, s)
  else
    let s ← expect '\\' s
    let s ← expect 'u' s
    let (low, s) ← hexFour s
    if low < 0xdc00 ∨ 0xdfff < low then .error .malformed
    else return (Char.ofNat (0x10000 + (high - 0xd800) * 1024 + (low - 0xdc00)), s)

/-- The character that a letter after a backslash stands for. -/
def simpleEscape? (c : Char) : Option Char :=
  if c = '"' ∨ c = '\\' ∨ c = '/' then some c
  else if c = 'b' then some '\x08'
  else if c = 'f' then some '\x0c'
  else if c = 'n' then some '\n'
  else if c = 'r' then some '\r'
  else if c = 't' then some '\t'
  else none

/-- The character of an escape, given after the backslash. -/
def escape : List Char → Except Fault (Char × List Char)
  | [] => .error .truncated
  | c :: rest =>
    if c = 'u' then unicodeEscape rest
    else
      match simpleEscape? c with
      | some d => .ok (d, rest)
      | none => .error .malformed

/-- The characters of a string, given after its opening quote, and the text after its closing
one. -/
def readString : (fuel : Nat) → List Char → Except Fault (List Char × List Char)
  | 0, _ | _, [] => .error .truncated
  | fuel + 1, c :: rest =>
    if c = '"' then .ok ([], rest)
    else if c = '\\' then do
      let (d, rest) ← escape rest
      let (ds, rest) ← readString fuel rest
      return (d :: ds, rest)
    else if c.toNat < 32 then .error .malformed
    else do
      let (ds, rest) ← readString fuel rest
      return (c :: ds, rest)

/-- Passes over an escape, given after the backslash; units need not form pairs. -/
def skipEscape : List Char → Except Fault (List Char)
  | [] => .error .truncated
  | c :: rest =>
    if c = 'u' then (hexFour rest).map (·.2)
    else if (simpleEscape? c).isSome then .ok rest
    else .error .malformed

/-- Passes over a string, given after its opening quote. -/
def skipString : (fuel : Nat) → List Char → Except Fault (List Char)
  | 0, _ | _, [] => .error .truncated
  | fuel + 1, c :: rest =>
    if c = '"' then .ok rest
    else if c = '\\' then do
      let rest ← skipEscape rest
      skipString fuel rest
    else if c.toNat < 32 then .error .malformed
    else skipString fuel rest

def faultOf : Except Fault Unit → Option Fault
  | .ok () => none
  | .error f => some f

def stop (f : Fault) : Reading Source := (.broken (.plain f), none)

/-- A defect and, if it can be passed over, the text after it. -/
def flawed (onRead : Fault) (after : Except Fault (List Char)) : Reading Source :=
  match after with
  | .ok rest => (.broken ⟨onRead, none⟩, some rest)
  | .error f => (.broken ⟨onRead, some f⟩, none)

def stringValue (fuel : Nat) (s : List Char) : Reading Source :=
  match readString fuel s with
  | .ok (cs, rest) => (.string (String.ofList cs), some rest)
  | .error f => flawed f (skipString fuel s)

def numberValue (s : List Char) : Reading Source :=
  match Numeral.read s with
  | .error d => (.broken d, none)
  | .ok (n, rest) =>
    match n.number? with
    | some x => (.number x, some rest)
    | none => (.broken ⟨.malformed, none⟩, some rest)

/-- A word that must stand next, and the value it means. -/
def wordValue (v : Source) : (word : List Char) → List Char → Reading Source
  | [], rest => (v, some rest)
  | m :: word, s =>
    match expect m s with
    | .ok rest => wordValue v word rest
    | .error f => stop f

/-- The greatest number of levels that can be read. -/
def maxDepth : Nat := 127

/-- A container at some depth: one that lies too deep can only be passed over. -/
def atDepth (depth : Nat) (r : Reading Source) : Reading Source :=
  if depth < maxDepth then r
  else (.broken ⟨.malformed, faultOf r.1.skip⟩, r.2)

mutual

/-- Reads a value that stands inside as many containers as the depth says. -/
def readValue : (fuel depth : Nat) → List Char → Reading Source
  | 0, _, _ => stop .truncated
  | fuel + 1, depth, s =>
    match skipSpace s with
    | [] => stop .truncated
    | c :: rest =>
      if c = '"' then stringValue fuel rest
      else if c = '[' then
        let (found, rest) := readItems fuel (depth + 1) true rest
        atDepth depth (.array found.1 found.2, rest)
      else if c = '\x7b' then
        let (found, rest) := readMembers fuel (depth + 1) true rest
        atDepth depth (.object found.1 found.2, rest)
      else if c = 'n' then wordValue .null ['u', 'l', 'l'] rest
      else if c = 't' then wordValue (.bool true) ['r', 'u', 'e'] rest
      else if c = 'f' then wordValue (.bool false) ['a', 'l', 's', 'e'] rest
      else if c = '-' ∨ (Numeral.digit? c).isSome then numberValue (c :: rest)
      else stop .malformed

/-- Reads the items of an array up to its closing bracket. -/
def readItems : (fuel depth : Nat) → (first : Bool) → List Char →
    Reading (List Source × Option Defect)
  | 0, _, _, _ => (([], some (.plain .truncated)), none)
  | fuel + 1, depth, first, s =>
    match skipSpace s with
    | [] => (([], some (.plain .truncated)), none)
    | c :: rest =>
      if c = ']' then (([], none), some rest)
      else if first then readItem fuel depth (c :: rest)
      else if c = ',' then readItem fuel depth rest
      else (([], some (.plain .malformed)), none)

def readItem : (fuel depth : Nat) → List Char → Reading (List Source × Option Defect)
  | 0, _, _ => (([], some (.plain .truncated)), none)
  | fuel + 1, depth, s =>
    match readValue fuel depth s with
    | (v, none) => (([v], none), none)
    | (v, some rest) =>
      let (found, rest) := readItems fuel depth false rest
      ((v :: found.1, found.2), rest)

/-- Reads the members of an object up to its closing brace. -/
def readMembers : (fuel depth : Nat) → (first : Bool) → List Char →
    Reading (Members × Option Defect)
  | 0, _, _, _ => (([], some (.plain .truncated)), none)
  | fuel + 1, depth, first, s =>
    match skipSpace s with
    | [] => (([], some (.plain .truncated)), none)
    | c :: rest =>
      if c = '\x7d' then (([], none), some rest)
      else if first then
        if c = '"' then readKey fuel depth rest else (([], some (.plain .malformed)), none)
      else if c = ',' then
        match skipSpace rest with
        | [] => (([], some (.plain .truncated)), none)
        | d :: rest =>
          if d = '"' then readKey fuel depth rest else (([], some (.plain .malformed)), none)
      else (([], some (.plain .malformed)), none)

/-- Reads a member from its key on, given after its opening quote; from a key that can only be
passed over the object is a defect for those who read it. -/
def readKey : (fuel depth : Nat) → List Char → Reading (Members × Option Defect)
  | 0, _, _ => (([], some (.plain .truncated)), none)
  | fuel + 1, depth, s =>
    match readString fuel s with
    | .ok (key, rest) => readMember fuel depth (String.ofList key) rest
    | .error f =>
      match skipString fuel s with
      | .error g => (([], some ⟨f, some g⟩), none)
      | .ok rest =>
        let (found, rest) := readMember fuel depth "" rest
        (([], some ⟨f, faultOf (Source.object found.1 found.2).skip⟩), rest)

/-- Reads a member after its key, and those after it. -/
def readMember : (fuel depth : Nat) → (key : String) → List Char →
    Reading (Members × Option Defect)
  | 0, _, _, _ => (([], some (.plain .truncated)), none)
  | fuel + 1, depth, key, s =>
    match expect ':' (skipSpace s) with
    | .error f => (([(key, .broken (.plain f))], none), none)
    | .ok rest =>
      match readValue fuel depth rest with
      | (v, none) => (([(key, v)], none), none)
      | (v, some rest) =>
        let (found, rest) := readMembers fuel depth false rest
        (((key, v) :: found.1, found.2), rest)

end

/-- A text as far as it can be read: its value, and what is wrong after the value, if anything. -/
structure Document where
  root : Source
  after : Option Fault

def Document.read (s : String) : Document :=
  let cs := s.toList
  match readValue (4 * cs.length + 4) 0 cs with
  | (v, none) => ⟨v, none⟩
  | (v, some rest) => ⟨v, if (skipSpace rest).isEmpty then none else some .malformed⟩

def Document.value (d : Document) : Except Fault Value := do
  let v ← d.root.value
  match d.after with
  | none => return v
  | some f => .error f

def Value.parse (s : String) : Except Fault Value := (Document.read s).value

end Relocation.Json
