import Relocation.Program

/-!
Pointing a host at the image of a config, and taking the image away again.
-/

set_option autoImplicit false

namespace Relocation

/-- What became of the image of a host that was to be cleared. -/
inductive HostCleanup
  | cleared
  | alreadyClear
  | missing
  deriving DecidableEq, Repr

/-- Makes the referenced host boot the live image at an address; says whether a patch was needed. -/
def setImage (r : HostReference) (url : String) : Program Bool := do
  match ← Program.store (.getHost r.key) with
  | none => Program.fail (.notFound "BareMetalHost" r.key.text)
  | some host =>
    let patch := HostPatch.bootFrom host.spec url
    if patch.isEmpty then return false
    else
      Program.note (.imageSet r.key url)
      Program.store (.patchHost r.key host.metadata.resourceVersion patch)
      return true

/-- Takes the image away from the referenced host, if there still is one. -/
def clearImage (r : HostReference) : Program HostCleanup := do
  match ← Program.store (.getHost r.key) with
  | none =>
    Program.note (.hostMissing r.key)
    return .missing
  | some host =>
    if host.spec.image.isNone then return .alreadyClear
    else
      Program.note (.imageRemoved r.key)
      Program.store (.patchHost r.key host.metadata.resourceVersion { image := .clear })
      return .cleared

end Relocation
