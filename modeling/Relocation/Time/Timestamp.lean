import Relocation.Text.Blank
import Relocation.Text.Utf8

/-!
Moments of universal time to the second, read from a tolerant form of RFC 3339 and written in its
plain form with `Z`. A leap second stays the sixtieth second of its minute.
-/

set_option autoImplicit false

namespace Relocation.Time

/-- Whether a year of the Gregorian calendar has a 29 February. -/
def isLeapYear (year : Int) : Bool := year % 4 = 0 && (year % 100 ≠ 0 || year % 400 = 0)

def daysInMonth (year : Int) (month : Nat) : Nat :=
  if month = 2 then if isLeapYear year then 29 else 28
  else if month = 4 ∨ month = 6 ∨ month = 9 ∨ month = 11 then 30
  else 31

def minYear : Int := -262143

def maxYear : Int := 262142

/-- A day of the Gregorian calendar. -/
structure Day where
  year : Int
  month : Nat
  day : Nat
  deriving DecidableEq, Repr

def Day.exists (d : Day) : Bool :=
  minYear ≤ d.year && d.year ≤ maxYear && 1 ≤ d.month && d.month ≤ 12 && 1 ≤ d.day &&
    d.day ≤ daysInMonth d.year d.month

def Day.next (d : Day) : Day :=
  if d.day < daysInMonth d.year d.month then ⟨d.year, d.month, d.day + 1⟩
  else if d.month < 12 then ⟨d.year, d.month + 1, 1⟩
  else ⟨d.year + 1, 1, 1⟩

def Day.previous (d : Day) : Day :=
  if 1 < d.day then ⟨d.year, d.month, d.day - 1⟩
  else if 1 < d.month then ⟨d.year, d.month - 1, daysInMonth d.year (d.month - 1)⟩
  else ⟨d.year - 1, 12, 31⟩

/-- Whether a day is of the calendar and a clock can show the hour, minute and second. -/
def isMoment (date : Day) (hour minute second : Nat) : Bool :=
  date.exists && hour < 24 && minute < 60 && second ≤ 60

/-- A moment of universal time; the second is 60 in a leap second. -/
structure Timestamp where
  date : Day
  hour : Nat
  minute : Nat
  second : Nat
  valid : isMoment date hour minute second = true := by decide
  deriving DecidableEq, Repr

instance : Inhabited Timestamp := ⟨⟨⟨1970, 1, 1⟩, 0, 0, 0, by decide⟩⟩

/-- Why a text is no moment. -/
inductive Fault
  | outOfRange
  | impossible
  | invalid
  | tooShort
  | trailing
  deriving DecidableEq, Repr

def Fault.message : Fault → String
  | .outOfRange => "input is out of range"
  | .impossible => "no possible date and time matching input"
  | .invalid => "input contains invalid characters"
  | .tooShort => "premature end of input"
  | .trailing => "trailing input"

/-- Decimal digits, at least as many as the width asks for. -/
def padded (width n : Nat) : List Char :=
  let digits := Nat.toDigits 10 n
  List.replicate (width - digits.length) '0' ++ digits

/-- A year has four digits; one outside 0 to 9999 has a sign before them. -/
def yearText (year : Int) : List Char :=
  if 0 ≤ year ∧ year ≤ 9999 then padded 4 year.toNat
  else (if year < 0 then '-' else '+') :: padded 4 year.natAbs

/-- The plain form of a moment, such as `2024-02-29T12:00:00Z`. -/
def Timestamp.text (t : Timestamp) : String :=
  String.ofList (yearText t.date.year ++ '-' :: padded 2 t.date.month ++
    '-' :: padded 2 t.date.day ++
    'T' :: padded 2 t.hour ++ ':' :: padded 2 t.minute ++ ':' :: padded 2 t.second ++ ['Z'])

abbrev Piece (α : Type) := List Char → Except Fault (α × List Char)

def skipBlanks (s : List Char) : List Char := s.dropWhile Text.isBlank

def digit? (c : Char) : Option Nat :=
  if 48 ≤ c.toNat ∧ c.toNat ≤ 57 then some (c.toNat - 48) else none

/-- The digits a text starts with, at most as many as the limit allows, and the rest. -/
def leadingDigits : (limit : Nat) → List Char → List Nat × List Char
  | 0, s => ([], s)
  | _ + 1, [] => ([], [])
  | limit + 1, c :: rest =>
    match digit? c with
    | none => ([], c :: rest)
    | some d => (d :: (leadingDigits limit rest).1, (leadingDigits limit rest).2)

def ofDigits (digits : List Nat) : Nat := digits.foldl (fun n d => 10 * n + d) 0

/-- An unsigned number of at least one digit that fits in 63 bits. -/
def number (limit : Nat) : Piece Nat := fun s =>
  match leadingDigits limit s with
  | ([], []) => .error .tooShort
  | ([], _ :: _) => .error .invalid
  | (digits, rest) =>
    if ofDigits digits < 0x8000000000000000 then .ok (ofDigits digits, rest) else .error .outOfRange

/-- A number of at most two digits within bounds, after white space. -/
def field (low high : Nat) : Piece Nat := fun s => do
  let (n, rest) ← number 2 (skipBlanks s)
  if low ≤ n ∧ n ≤ high then .ok (n, rest) else .error .outOfRange

/-- A year: four digits at most without a sign, any number of digits after one. -/
def year : Piece Int := fun s => do
  let fits (n : Int) (rest : List Char) : Except Fault (Int × List Char) :=
    if -0x80000000 ≤ n ∧ n < 0x80000000 then .ok (n, rest) else .error .outOfRange
  match skipBlanks s with
  | '-' :: rest => do
    let (n, rest) ← number rest.length rest
    fits (-n) rest
  | '+' :: rest => do
    let (n, rest) ← number rest.length rest
    fits n rest
  | s => do
    let (n, rest) ← number 4 s
    fits n rest

def mark (m : Char) : Piece Unit := fun s =>
  match skipBlanks s with
  | [] => .error .tooShort
  | c :: rest => if c = m then .ok ((), rest) else .error .invalid

/-- What parts the date from the time: a `T` of either case or one space. -/
def separator : Piece Unit
  | [] => .error .tooShort
  | c :: rest => if c = 't' ∨ c = 'T' ∨ c = ' ' then .ok ((), rest) else .error .invalid

/-- Decimals of a second after a point are passed over; there must be one. -/
def fraction : Piece Unit
  | '.' :: rest => do
    let (_, rest) ← number 9 rest
    .ok ((), rest.dropWhile fun c => (digit? c).isSome)
  | s => .ok ((), s)

def digitPair : Piece (Nat × Nat) := fun s =>
  match s with
  | a :: b :: rest =>
    match digit? a, digit? b with
    | some x, some y => .ok ((x, y), rest)
    | _, _ => .error .invalid
  | _ => if Text.byteCount s < 2 then .error .tooShort else .error .invalid

/-- Minutes east of universal time: `Z`, `UTC`, or a sign, two digits of hours, colons or white
space, and two digits of minutes. -/
def zone : Piece Int := fun s =>
  match s with
  | 'Z' :: rest | 'z' :: rest => .ok (0, rest)
  | c :: rest =>
    if [c.toLower, (rest.getD 0 ' ').toLower, (rest.getD 1 ' ').toLower] = ['u', 't', 'c'] then
      .ok (0, rest.drop 2)
    else if c = '+' ∨ c = '-' ∨ c = '\u2212' then do
      let ((h, i), rest) ← digitPair rest
      let rest := rest.dropWhile fun c => c = ':' ∨ Text.isBlank c
      let ((m, n), rest) ← digitPair rest
      if 6 ≤ m then .error .outOfRange
      else
        let minutes : Int := (10 * h + i : Nat) * 60 + (10 * m + n : Nat)
        .ok (if c = '+' then minutes else -minutes, rest)
    else .error .invalid
  | [] => .error .tooShort

/-- The moment that a clock at some minutes east of universal time shows. -/
def Timestamp.ofLocal (date : Day) (hour minute second : Nat) (east : Int) :
    Except Fault Timestamp :=
  if !date.exists then .error .outOfRange
  else if east ≤ -1440 ∨ 1440 ≤ east then .error .outOfRange
  else
    let total : Int := (hour * 60 + minute : Nat) - east
    let date := if total < 0 then date.previous else if 1440 ≤ total then date.next else date
    let clock := (total % 1440).toNat
    if h : isMoment date (clock / 60) (clock % 60) second then
      .ok ⟨date, clock / 60, clock % 60, second, h⟩
    else .error .impossible

/-- Reads a moment: date and time parted by a `T` or a space, white space allowed around the parts,
any number of decimals of the second, and a zone. -/
def Timestamp.parse (s : String) : Except Fault Timestamp := do
  let (year, s) ← year s.toList
  let ((), s) ← mark '-' s
  let (month, s) ← field 1 12 s
  let ((), s) ← mark '-' s
  let (day, s) ← field 1 31 s
  let ((), s) ← separator s
  let (hour, s) ← field 0 23 s
  let ((), s) ← mark ':' s
  let (minute, s) ← field 0 59 s
  let ((), s) ← mark ':' s
  let (second, s) ← field 0 60 s
  let ((), s) ← fraction s
  let (east, s) ← zone (skipBlanks s)
  if (skipBlanks s).isEmpty then ofLocal ⟨year, month, day⟩ hour minute second east
  else .error .trailing

end Relocation.Time
