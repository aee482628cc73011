import Relocation.Json.Encode

/-!
Schemas of objects, as members of a JSON object that is put together: what type a value has, what it
is for, whether it may be null, and which members an object has.
-/

set_option autoImplicit false

namespace Relocation.Crd

open Json

abbrev Schema := Parts

/-- A member of an object and whether it must be there. -/
structure Property where
  name : String
  required : Bool
  schema : Schema

namespace Schema

def string : Schema := member "type" (.string "string")

def boolean : Schema := member "type" (.string "boolean")

def int32 : Schema := member "type" (.string "integer") ++ member "format" (.string "int32")

def list (item : Schema) : Schema :=
  member "type" (.string "array") ++ member "items" (.object item)

/-- An object; the names of the members that must be there are written in order. -/
def record (properties : List Property) : Schema :=
  let names := (properties.filter (·.required)).map (·.name)
  member "type" (.string "object") ++
    member "properties" (.object (properties.map fun p => (p.name, .object p.schema))) ++
    listMember "required" .string (names.mergeSort fun a b => a ≤ b)

def described (description : String) (s : Schema) : Schema :=
  member "description" (.string description) ++ s

def orNull (s : Schema) : Schema := member "nullable" (.bool true) ++ s

/-- A schema with the value that an absent one stands for. -/
def withDefault (v : Value) (s : Schema) : Schema := member "default" v ++ s

def titled (title : String) (s : Schema) : Schema := member "title" (.string title) ++ s

end Schema

def required (name description : String) (s : Schema) : Property :=
  ⟨name, true, s.described description⟩

/-- A member that may be absent or null. -/
def optional (name description : String) (s : Schema) : Property :=
  ⟨name, false, s.orNull.described description⟩

def defaulted (name description : String) (s : Schema) : Property :=
  ⟨name, false, s.described description⟩

/-- A member without a description that must be there. -/
def bare (name : String) (s : Schema) : Property := ⟨name, true, s⟩

end Relocation.Crd
