import Relocation.Objects.Host

/-!
Changes to the power and the boot image of a host: as a merge patch for the cluster's interface, and
as they work on a host.
-/

set_option autoImplicit false

namespace Relocation

open Json

/-- A change of the image of a host. -/
inductive ImageChange
  | keep
  | set (image : HostImage)
  | clear
  deriving DecidableEq, Repr, Inhabited

/-- A change of a host. -/
structure HostPatch where
  online : Option Bool := none
  image : ImageChange := .keep
  deriving DecidableEq, Repr, Inhabited

namespace HostPatch

def isEmpty (p : HostPatch) : Bool := p.online.isNone && p.image == .keep

def specPatch (p : HostPatch) : Parts :=
  (match p.image with
    | .keep => []
    | .set image => member "image" image.toValue
    | .clear => member "image" .null) ++
  optionalMember "online" .bool p.online

/-- The patch as a JSON merge patch, in tidy form; a given resource version must be the current
one. -/
def toMergePatch (p : HostPatch) (version : Option String) : Value :=
  (Value.object (optionalMember "metadata"
      (fun v => .object (member "resourceVersion" (.string v))) version ++
    member "spec" (.object p.specPatch))).tidy

/-- The image after another was merged into it: what the other leaves open stays. -/
def mergeImage (current image : HostImage) : HostImage where
  url := image.url
  checksum := image.checksum.or current.checksum
  checksumType := image.checksumType.or current.checksumType
  diskFormat := image.diskFormat.or current.diskFormat

def applyTo (p : HostPatch) (s : HostSpec) : HostSpec :=
  { s with
    online := p.online.getD s.online
    image := match p.image with
      | .keep => s.image
      | .set image => some (mergeImage (s.image.getD default) image)
      | .clear => none }

/-- The least patch after which a host boots the live image at an address. -/
def bootFrom (s : HostSpec) (url : String) : HostPatch where
  online := if s.online then none else some true
  image :=
    if s.image.any fun i => i.url = url && i.diskFormat = some liveIsoFormat then .keep
    else .set (.liveIso url)

end HostPatch

end Relocation
