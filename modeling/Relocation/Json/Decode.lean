import Relocation.Json.Reader
import Relocation.Text.Base64
import Relocation.Text.Quoted
import Relocation.Time.Timestamp

/-!
Decoding JSON into typed values. A decoder goes through the tree in text order and fails at the
first thing that does not fit. A record is read in two passes: the first visits every member where
it stands, the second takes the members that the record knows by name.
-/

set_option autoImplicit false

namespace Relocation.Json

/-- What was found where something else was expected. -/
inductive Found
  | null
  | bool (b : Bool)
  | number (n : Number)
  | string (s : String)
  | sequence
  | map
  deriving DecidableEq

def Found.message : Found → String
  | .null => "null"
  | .bool b => "boolean `" ++ (if b then "true" else "false") ++ "`"
  | .number (.int n _) => "integer `" ++ String.ofList (intText n) ++ "`"
  | .number (.float x) => "floating point `" ++ x.documentText ++ "`"
  | .string s => "string " ++ Text.quoted s
  | .sequence => "sequence"
  | .map => "map"
where
  intText (n : Int) : List Char :=
    if n < 0 then '-' :: Nat.toDigits 10 n.natAbs else Nat.toDigits 10 n.natAbs

/-- Why a document cannot be decoded. -/
inductive DecodeError
  | text (f : Fault)
  | type (found : Found) (expected : String)
  | value (found : Found) (expected : String)
  | tooFew (count : Nat) (expected : String)
  | tooMany (count room : Nat)
  | tooManyHeld (count room : Nat)
  | missing (field : String)
  | duplicate (field : String)
  | timestamp (f : Time.Fault)
  | base64 (f : Text.Base64.Fault)
  deriving DecidableEq

def elements (n : Nat) : String := n.repr ++ if n = 1 then " element" else " elements"

def DecodeError.message : DecodeError → String
  | .text .malformed => "expected value at line 1 column 1"
  | .text .truncated => "EOF while parsing a value at line 1 column 0"
  | .type found expected => "invalid type: " ++ found.message ++ ", expected " ++ expected
  | .value found expected => "invalid value: " ++ found.message ++ ", expected " ++ expected
  | .tooFew count expected => "invalid length " ++ count.repr ++ ", expected " ++ expected
  | .tooMany count _ =>
    "invalid length " ++ count.repr ++ ", expected fewer elements in array"
  | .tooManyHeld count room =>
    "invalid length " ++ count.repr ++ ", expected " ++ elements room ++ " in sequence"
  | .missing field => "missing field `" ++ field ++ "`"
  | .duplicate field => "duplicate field `" ++ field ++ "`"
  | .timestamp f => f.message
  | .base64 f => f.message

/-- The same error about values that were held back and decoded at the end. -/
def DecodeError.held : DecodeError → DecodeError
  | .tooMany count room => .tooManyHeld count room
  | e => e

/-- What kind of trouble a text is in: it is no JSON, it ends too early, or it does not fit. -/
inductive Trouble
  | malformed
  | truncated
  | unfit
  deriving DecidableEq, Repr

/-- The kind of an error in a text. An array that goes on after the last element of a record is no
longer read as JSON. -/
def DecodeError.trouble : DecodeError → Trouble
  | .text .malformed | .tooMany _ _ => .malformed
  | .text .truncated => .truncated
  | _ => .unfit

abbrev Decoder (α : Type) := Source → Except DecodeError α

def liftFault {α : Type} (r : Except Fault α) : Except DecodeError α := r.mapError .text

/-- The error of a value of another type than expected. -/
def mismatch {α : Type} (s : Source) (expected : String) : Except DecodeError α :=
  .error <| match s with
    | .null => .type .null expected
    | .bool b => .type (.bool b) expected
    | .number n => .type (.number n) expected
    | .string t => .type (.string t) expected
    | .array _ _ => .type .sequence expected
    | .object _ _ => .type .map expected
    | .broken d => .text d.onRead

namespace Decoder

variable {α β : Type}

def string : Decoder String
  | .string s => .ok s
  | s => mismatch s "a string"

def bool : Decoder Bool
  | .bool b => .ok b
  | s => mismatch s "a boolean"

def any : Decoder Value := fun s => (liftFault s.value).map Value.tidy

def int32 : Decoder Int32
  | .number (.int n h) =>
    if -0x80000000 ≤ n ∧ n < 0x80000000 then .ok (Int32.ofInt n)
    else .error (.value (.number (.int n h)) "i32")
  | s => mismatch s "i32"

def int64 : Decoder Int64
  | .number (.int n h) =>
    if n < 0x8000000000000000 then .ok (Int64.ofInt n)
    else .error (.value (.number (.int n h)) "i64")
  | s => mismatch s "i64"

def timestamp : Decoder Time.Timestamp
  | .string s => (Time.Timestamp.parse s).mapError .timestamp
  | s => mismatch s "an RFC 3339 formatted date and time string"

def bytes : Decoder (List UInt8)
  | .string s => (Text.Base64.decode s).mapError .base64
  | .null => .ok []
  | s => mismatch s "a base64-encoded string"

/-- A value that null stands for the absence of. -/
def optional (d : Decoder α) : Decoder (Option α)
  | .null => .ok none
  | s => (d s).map some

/-- A value that null stands for the default of. -/
def orDefault [Inhabited α] (d : Decoder α) : Decoder α
  | .null => .ok default
  | s => d s

def items (d : Decoder α) : List Source → Except DecodeError (List α)
  | [] => .ok []
  | s :: rest => do
    let x ← d s
    let xs ← items d rest
    return x :: xs

def list (d : Decoder α) : Decoder (List α)
  | .array ss ending => do
    let xs ← items d ss
    liftFault (onRead ending)
    return xs
  | s => mismatch s "a sequence"

/-- Decodes the values of members one after the other, beside those that stand before them. -/
def entries (d : Decoder α) (before : Table String α) :
    Members → Except DecodeError (Table String α)
  | [] => .ok before
  | (k, s) :: rest => do
    let x ← d s
    entries d (before.insert k x) rest

/-- A table from strings; the last value of a key stays. -/
def table (d : Decoder α) : Decoder (Table String α)
  | .object ms ending => do
    let t ← entries d .empty ms
    liftFault (onRead ending)
    return t
  | s => mismatch s "a map"

end Decoder

/-- A member of a record: its name, what its absence stands for (none if it must be there), and how
its value is decoded. -/
structure Field (α : Type) where
  name : String
  absent : Option α
  decode : Decoder α

namespace Field

variable {α : Type}

def required (name : String) (d : Decoder α) : Field α := ⟨name, none, d⟩

/-- A member that may be absent or null. -/
def optional (name : String) (d : Decoder α) : Field (Option α) := ⟨name, some none, d.optional⟩

def defaulted (name : String) (d : Decoder α) (value : α) : Field α := ⟨name, some value, d⟩

/-- A member whose absence and null stand for the default. -/
def lenient [Inhabited α] (name : String) (d : Decoder α) : Field α :=
  ⟨name, some default, d.orDefault⟩

end Field

/-- What a record knows of a member before it takes its value. -/
structure Known where
  name : String
  needed : Bool
  check : Source → Except DecodeError Unit

/-- A field as one of the members that a record knows. -/
def Field.known {α : Type} (f : Field α) : Known :=
  ⟨f.name, f.absent.isNone, fun s => (f.decode s).map fun _ => ()⟩

/-- A member that an array of the values must not leave out, though an object may. -/
def Known.inArray (k : Known) : Known := { k with needed := true }

def lastOf (name : String) : Members → Option Source
  | [] => none
  | (k, s) :: rest =>
    match lastOf name rest with
    | some t => some t
    | none => if k = name then some s else none

def Field.take {α : Type} (f : Field α) (ms : Members) : Except DecodeError α :=
  match lastOf f.name ms with
  | some s => f.decode s
  | none =>
    match f.absent with
    | some a => .ok a
    | none => .error (.missing f.name)

/-- How strictly a record is taken. A plain one has each member once and may come as an array of its
values; in a loose one the last value of a member stays; an embracing one has each member once and
reads the members it does not know, since they belong to a part of it. -/
inductive RecordStyle
  | plain
  | loose
  | embracing
  deriving DecidableEq, Repr

/-- A kind of record: its title, the members it knows in their order, and how it is put together. -/
structure RecordForm (α : Type) where
  title : String
  style : RecordStyle := .plain
  known : List Known
  build : Members → Except DecodeError α

namespace RecordForm

variable {α : Type}

/-- Reads or passes over a member that the record does not know. -/
def other (form : RecordForm α) (s : Source) : Except DecodeError Unit :=
  liftFault (if form.style = .embracing then s.value.map fun _ => () else s.skip)

def visit (form : RecordForm α) (seen : List String) : Members → Except DecodeError Unit
  | [] => .ok ()
  | (name, s) :: rest =>
    match form.known.find? (·.name = name) with
    | none => do
      form.other s
      visit form seen rest
    | some k =>
      if form.style ≠ .loose && seen.contains name then .error (.duplicate name)
      else do
        k.check s
        visit form (name :: seen) rest

/-- The wording of what an array of the values should have been. -/
def expectedLength (form : RecordForm α) : String :=
  form.title ++ " with " ++ elements form.known.length

/-- Pairs values with the names of the members, in their order. -/
def visitItems (form : RecordForm α) (ending : Option Defect) (count : Nat) :
    List Known → List Source → Except DecodeError Members
  | [], [] => do
    liftFault (onRead ending)
    return []
  | [], _ :: rest => .error (.tooMany (count + 1 + rest.length) count)
  | k :: ks, [] => do
    liftFault (onRead ending)
    if k.needed then .error (.tooFew count form.expectedLength)
    else visitItems form ending (count + 1) ks []
  | k :: ks, s :: rest => do
    k.check s
    let ms ← visitItems form ending (count + 1) ks rest
    return (k.name, s) :: ms

def decode (form : RecordForm α) : Decoder α
  | .object ms ending => do
    form.visit [] ms
    liftFault (onRead ending)
    form.build ms
  | .array items ending =>
    if form.style = .plain then do
      let ms ← form.visitItems ending 0 form.known items
      form.build ms
    else mismatch (.array items ending) form.title
  | s => mismatch s form.title

end RecordForm

def Decoder.ofText {α : Type} (d : Decoder α) (s : String) : Except DecodeError α := do
  let document := Document.read s
  let x ← d document.root
  match document.after with
  | none => return x
  | some f => .error (.text f)

def Decoder.ofValue {α : Type} (d : Decoder α) (v : Value) : Except DecodeError α :=
  d (Source.ofValue v.tidy)

end Relocation.Json
