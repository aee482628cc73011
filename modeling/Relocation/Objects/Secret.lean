import Relocation.Objects.Metadata

/-!
Secrets: named byte strings with metadata.
-/

set_option autoImplicit false

namespace Relocation

open Json

/-- A secret of the cluster. -/
structure Secret where
  data : Option (Table String (List UInt8)) := none
  immutable : Option Bool := none
  metadata : ObjectMeta := {}
  stringData : Option (Table String String) := none
  type : Option String := none
  deriving Inhabited

namespace Secret

def exactly (expected : String) : Decoder Unit := fun s => do
  let found ← Decoder.string s
  if found = expected then .ok () else .error (.value (.string found) expected)

/-- The members of a secret; its version and kind, if given, must be those of a secret. -/
def form : RecordForm Secret :=
  let apiVersion := Field.defaulted "apiVersion" (exactly "v1") ()
  let kind := Field.defaulted "kind" (exactly "Secret") ()
  let data := Field.optional "data" (Decoder.table Decoder.bytes)
  let immutable := Field.optional "immutable" Decoder.bool
  let metadata := Field.lenient "metadata" ObjectMeta.form.decode
  let stringData := Field.optional "stringData" (Decoder.table Decoder.string)
  let type := Field.optional "type" Decoder.string
  { title := "Secret"
    style := .loose
    known := [apiVersion.known, kind.known, data.known, immutable.known, metadata.known,
      stringData.known, type.known]
    build := fun ms => return {
      data := ← data.take ms
      immutable := ← immutable.take ms
      metadata := ← metadata.take ms
      stringData := ← stringData.take ms
      type := ← type.take ms } }

def toValue (s : Secret) : Value :=
  .object (member "apiVersion" (.string "v1") ++
    member "kind" (.string "Secret") ++
    optionalMember "data" (tableValue fun b => .string (Text.Base64.encode b)) s.data ++
    optionalMember "immutable" .bool s.immutable ++
    member "metadata" s.metadata.toValue ++
    optionalMember "stringData" (tableValue .string) s.stringData ++
    optionalMember "type" .string s.type)

/-- The key of a secret; a secret without a name has the empty one. -/
def key (s : Secret) : ObjectKey := ⟨s.metadata.space.getD "", s.metadata.name.getD ""⟩

end Secret

end Relocation
