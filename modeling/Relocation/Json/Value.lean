import Relocation.Binary64
import Relocation.Table

/-!
JSON values. An object keeps its members as they stand, in order; its tidy form has them in key
order with one member per key.
-/

set_option autoImplicit false

namespace Relocation.Json

/-- Whether an integer is kept exactly: it fits in 64 bits, with a sign if it is negative. -/
def IsExact (n : Int) : Prop := -0x8000000000000000 ≤ n ∧ n < 0x10000000000000000

instance (n : Int) : Decidable (IsExact n) := inferInstanceAs (Decidable (_ ∧ _))

/-- A number is an exact integer or a binary64 number. -/
inductive Number
  | int (n : Int) (exact : IsExact n)
  | float (x : Binary64)
  deriving DecidableEq

/-- A JSON value. -/
inductive Value
  | null
  | bool (b : Bool)
  | number (n : Number)
  | string (s : String)
  | array (items : List Value)
  | object (members : List (String × Value))

namespace Value

instance : Inhabited Value := ⟨.null⟩

def nat (n : Nat) (h : n < 0x10000000000000000 := by decide) : Value :=
  .number (.int n ⟨by omega, by omega⟩)

def int32 (n : Int32) : Value :=
  .number (.int n.toInt ⟨by have := n.le_toInt; omega, by have := n.toInt_lt; omega⟩)

def int64 (n : Int64) : Value :=
  .number (.int n.toInt ⟨by have := n.le_toInt; omega, by have := n.toInt_lt; omega⟩)

mutual

/-- The tidy form: in every object the members in key order, the last one of a key staying. -/
def tidy : Value → Value
  | .array items => .array (tidyItems items)
  | .object members => .object (tidyMembers [] members)
  | v => v

def tidyItems : List Value → List Value
  | [] => []
  | v :: rest => v.tidy :: tidyItems rest

/-- Members put in key order beside those that stand before them. -/
def tidyMembers (before : List (String × Value)) : List (String × Value) → List (String × Value)
  | [] => before
  | (k, v) :: rest => tidyMembers (Table.put k v.tidy before) rest

end

/-- The value of a member of an object, the last one of the key; other values have no members. -/
def member? (key : String) : Value → Option Value
  | .object members => (members.reverse.find? (·.1 = key)).map (·.2)
  | _ => none

end Value

end Relocation.Json
