import Relocation.Json.Value

/-!
A document as far as it can be read. A text with a defect still has a tree up to it, and a reader
that goes through the tree in text order meets the defect where it stands. Some defects show only
when a value is read, not when it is passed over: a number out of range, half a surrogate pair, a
nesting that is too deep.
-/

set_option autoImplicit false

namespace Relocation.Json

/-- What is wrong with a text: it is no JSON, or it ends too early. -/
inductive Fault
  | malformed
  | truncated
  deriving DecidableEq, Repr

/-- A defect as it shows to one who reads the value and to one who passes over it. -/
structure Defect where
  onRead : Fault
  onSkip : Option Fault
  deriving DecidableEq, Repr

def Defect.plain (f : Fault) : Defect := ⟨f, some f⟩

/-- A value as it stands in a text, perhaps with a defect inside or at the end of a container. -/
inductive Source
  | null
  | bool (b : Bool)
  | number (n : Number)
  | string (s : String)
  | array (items : List Source) (ending : Option Defect)
  | object (members : List (String × Source)) (ending : Option Defect)
  | broken (defect : Defect)

/-- The members of an object as they stand in a text. -/
abbrev Members := List (String × Source)

instance : Inhabited Source := ⟨.null⟩

/-- Fails with the fault that a reader meets, if any. -/
def onRead : Option Defect → Except Fault Unit
  | none => .ok ()
  | some d => .error d.onRead

/-- Fails with the fault that shows when a value is passed over, if any. -/
def onSkip : Option Defect → Except Fault Unit
  | some ⟨_, some f⟩ => .error f
  | _ => .ok ()

namespace Source

mutual

def ofValue : Value → Source
  | .null => .null
  | .bool b => .bool b
  | .number n => .number n
  | .string s => .string s
  | .array items => .array (ofItems items) none
  | .object members => .object (ofMembers members) none

def ofItems : List Value → List Source
  | [] => []
  | v :: rest => ofValue v :: ofItems rest

def ofMembers : List (String × Value) → Members
  | [] => []
  | (k, v) :: rest => (k, ofValue v) :: ofMembers rest

end

mutual

def skip : Source → Except Fault Unit
  | .array items ending => do
    skipItems items
    Json.onSkip ending
  | .object members ending => do
    skipMembers members
    Json.onSkip ending
  | .broken defect => Json.onSkip (some defect)
  | _ => .ok ()

def skipItems : List Source → Except Fault Unit
  | [] => .ok ()
  | s :: rest => do
    s.skip
    skipItems rest

def skipMembers : Members → Except Fault Unit
  | [] => .ok ()
  | (_, s) :: rest => do
    s.skip
    skipMembers rest

end

mutual

def value : Source → Except Fault Value
  | .null => .ok .null
  | .bool b => .ok (.bool b)
  | .number n => .ok (.number n)
  | .string s => .ok (.string s)
  | .array items ending => do
    let values ← itemValues items
    Json.onRead ending
    return .array values
  | .object members ending => do
    let values ← memberValues members
    Json.onRead ending
    return .object values
  | .broken defect => .error defect.onRead

def itemValues : List Source → Except Fault (List Value)
  | [] => .ok []
  | s :: rest => do
    let v ← s.value
    let values ← itemValues rest
    return v :: values

def memberValues : Members → Except Fault (List (String × Value))
  | [] => .ok []
  | (k, s) :: rest => do
    let v ← s.value
    let values ← memberValues rest
    return (k, v) :: values

end

end Source

end Relocation.Json
