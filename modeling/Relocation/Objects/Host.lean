import Relocation.Objects.Metadata

/-!
Bare metal hosts, as far as their power and their boot image are concerned.
-/

set_option autoImplicit false

namespace Relocation

open Json

def liveIsoFormat : String := "live-iso"

/-- The image that a host boots. -/
structure HostImage where
  url : String
  checksum : Option String := none
  checksumType : Option String := none
  diskFormat : Option String := none
  deriving DecidableEq, Repr, Inhabited

/-- The desired state of a host. -/
structure HostSpec where
  online : Bool := false
  image : Option HostImage := none
  bootMacAddress : Option String := none
  deriving DecidableEq, Repr, Inhabited

/-- A bare metal host. -/
structure Host where
  metadata : ObjectMeta
  spec : HostSpec
  deriving Inhabited

namespace HostImage

def liveIso (url : String) : HostImage := { url, diskFormat := some liveIsoFormat }

def form : RecordForm HostImage :=
  let url := Field.required "url" Decoder.string
  let checksum := Field.optional "checksum" Decoder.string
  let checksumType := Field.optional "checksumType" Decoder.string
  let diskFormat := Field.optional "diskFormat" Decoder.string
  { title := "struct HostImage"
    known := [url.known, checksum.known, checksumType.known, diskFormat.known]
    build := fun ms => return {
      url := ← url.take ms
      checksum := ← checksum.take ms
      checksumType := ← checksumType.take ms
      diskFormat := ← diskFormat.take ms } }

def toValue (i : HostImage) : Value :=
  .object (member "url" (.string i.url) ++
    optionalMember "checksum" .string i.checksum ++
    optionalMember "checksumType" .string i.checksumType ++
    optionalMember "diskFormat" .string i.diskFormat)

end HostImage

namespace HostSpec

def form : RecordForm HostSpec :=
  let online := Field.defaulted "online" Decoder.bool false
  let image := Field.optional "image" HostImage.form.decode
  let bootMacAddress := Field.optional "bootMACAddress" Decoder.string
  { title := "struct BareMetalHostSpec"
    known := [online.known, image.known, bootMacAddress.known]
    build := fun ms => return {
      online := ← online.take ms
      image := ← image.take ms
      bootMacAddress := ← bootMacAddress.take ms } }

def toValue (s : HostSpec) : Value :=
  .object (member "online" (.bool s.online) ++
    optionalMember "image" HostImage.toValue s.image ++
    optionalMember "bootMACAddress" .string s.bootMacAddress)

end HostSpec

namespace Host

/-- The version of the interface that hosts belong to. -/
def apiVersion : String := "metal3.io/v1alpha1"

/-- The members of a host; version and kind are not looked at. -/
def form : RecordForm Host :=
  let metadata := Field.required "metadata" ObjectMeta.form.decode
  let spec := Field.required "spec" HostSpec.form.decode
  { title := "struct BareMetalHost"
    known := [metadata.known, spec.known]
    build := fun ms => return { metadata := ← metadata.take ms, spec := ← spec.take ms } }

def toValue (h : Host) : Value :=
  .object (member "apiVersion" (.string apiVersion) ++
    member "kind" (.string "BareMetalHost") ++
    member "metadata" h.metadata.toValue ++
    member "spec" h.spec.toValue)

def key (h : Host) : ObjectKey := h.metadata.key

end Host

end Relocation
