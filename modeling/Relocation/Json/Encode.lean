import Relocation.Json.Writer
import Relocation.Time.Timestamp

/-!
Encoding typed values as JSON: the pieces that objects are put together from.
-/

set_option autoImplicit false

namespace Relocation.Json

/-- The members of an object that is being put together. -/
abbrev Parts := List (String × Value)

def member (name : String) (v : Value) : Parts := [(name, v)]

def optionalMember {α : Type} (name : String) (encode : α → Value) : Option α → Parts
  | none => []
  | some a => [(name, encode a)]

/-- A member that is written when the list has items. -/
def listMember {α : Type} (name : String) (encode : α → Value) : List α → Parts
  | [] => []
  | items => [(name, .array (items.map encode))]

def listValue {α : Type} (encode : α → Value) (items : List α) : Value :=
  .array (items.map encode)

def nullable {α : Type} (encode : α → Value) : Option α → Value
  | none => .null
  | some a => encode a

def tableValue {α : Type} (encode : α → Value) (t : Table String α) : Value :=
  .object (t.toList.map fun e => (e.1, encode e.2))

def timestampValue (t : Time.Timestamp) : Value := .string t.text

end Relocation.Json
