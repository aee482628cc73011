import Relocation.Objects.Metadata
import Relocation.Objects.RelocationSettings

/-!
Cluster configs: requests to relocate a cluster, with the host that shall boot the image.
-/

set_option autoImplicit false

namespace Relocation

open Json

/-- The finalizer that guards the exported data and the boot image of the host. -/
def ourFinalizer : String := "clusterconfig.relocation.openshift.io/deprovision"

/-- A reference to a host. -/
structure HostReference where
  name : String
  space : String
  deriving DecidableEq, Repr, Inhabited

/-- The registration with a hub after the relocation. -/
structure AcmRegistration where
  url : Option String
  acmSecret : SecretReference
  deriving DecidableEq, Repr, Inhabited

/-- What a cluster config asks for. -/
structure ClusterConfigSpec where
  relocation : RelocationSettings
  acmRegistration : Option AcmRegistration := none
  bareMetalHostRef : Option HostReference := none
  deriving DecidableEq, Repr, Inhabited

/-- An observation of the state of a cluster config. -/
structure ConfigCondition where
  type : String
  status : String
  reason : Option String
  message : Option String
  lastTransitionTime : Option String
  deriving DecidableEq, Repr, Inhabited

/-- The status of a cluster config. -/
structure ClusterConfigStatus where
  conditions : List ConfigCondition
  deriving DecidableEq, Repr, Inhabited

/-- A cluster config. -/
structure ClusterConfig where
  metadata : ObjectMeta
  spec : ClusterConfigSpec
  status : Option ClusterConfigStatus := none
  deriving Inhabited

namespace HostReference

def form : RecordForm HostReference :=
  let name := Field.required "name" Decoder.string
  let space := Field.required "namespace" Decoder.string
  { title := "struct BareMetalHostReference"
    known := [name.known, space.known]
    build := fun ms => return { name := ← name.take ms, space := ← space.take ms } }

def toValue (r : HostReference) : Value :=
  .object (member "name" (.string r.name) ++ member "namespace" (.string r.space))

def key (r : HostReference) : ObjectKey := ⟨r.space, r.name⟩

end HostReference

namespace AcmRegistration

def form : RecordForm AcmRegistration :=
  let url := Field.optional "url" Decoder.string
  let acmSecret := Field.required "acmSecret" SecretReference.form.decode
  { title := "struct AcmRegistration"
    known := [url.known, acmSecret.known]
    build := fun ms => return { url := ← url.take ms, acmSecret := ← acmSecret.take ms } }

def toValue (r : AcmRegistration) : Value :=
  .object (optionalMember "url" .string r.url ++ member "acmSecret" r.acmSecret.toValue)

end AcmRegistration

namespace ClusterConfigSpec

/-- The members of a spec; those it does not know itself belong to the relocation settings, which
are decoded after the whole spec has been read. -/
def form : RecordForm ClusterConfigSpec :=
  let acmRegistration := Field.optional "acmRegistration" AcmRegistration.form.decode
  let bareMetalHostRef := Field.optional "bareMetalHostRef" HostReference.form.decode
  { title := "struct ClusterConfigSpec"
    style := .embracing
    known := [acmRegistration.known, bareMetalHostRef.known]
    build := fun ms => return {
      acmRegistration := ← acmRegistration.take ms
      bareMetalHostRef := ← bareMetalHostRef.take ms
      relocation := ←
        (RelocationSettings.form.decode (.object ms none)).mapError DecodeError.held } }

def toValue (s : ClusterConfigSpec) : Value :=
  .object (s.relocation.parts ++
    optionalMember "acmRegistration" AcmRegistration.toValue s.acmRegistration ++
    optionalMember "bareMetalHostRef" HostReference.toValue s.bareMetalHostRef)

end ClusterConfigSpec

namespace ConfigCondition

def form : RecordForm ConfigCondition :=
  let type := Field.required "type" Decoder.string
  let status := Field.required "status" Decoder.string
  let reason := Field.optional "reason" Decoder.string
  let message := Field.optional "message" Decoder.string
  let lastTransitionTime := Field.optional "lastTransitionTime" Decoder.string
  { title := "struct ConfigCondition"
    known := [type.known, status.known, reason.known, message.known, lastTransitionTime.known]
    build := fun ms => return {
      type := ← type.take ms
      status := ← status.take ms
      reason := ← reason.take ms
      message := ← message.take ms
      lastTransitionTime := ← lastTransitionTime.take ms } }

def toValue (c : ConfigCondition) : Value :=
  .object (member "type" (.string c.type) ++
    member "status" (.string c.status) ++
    member "reason" (nullable .string c.reason) ++
    member "message" (nullable .string c.message) ++
    member "lastTransitionTime" (nullable .string c.lastTransitionTime))

end ConfigCondition

namespace ClusterConfigStatus

def form : RecordForm ClusterConfigStatus :=
  let conditions := Field.defaulted "conditions" (Decoder.list ConfigCondition.form.decode) []
  { title := "struct ClusterConfigStatus"
    known := [conditions.known]
    build := fun ms => return { conditions := ← conditions.take ms } }

def toValue (s : ClusterConfigStatus) : Value :=
  .object (member "conditions" (listValue ConfigCondition.toValue s.conditions))

end ClusterConfigStatus

namespace ClusterConfig

/-- The version of the interface that cluster configs belong to. -/
def apiVersion : String := "relocation.openshift.io/v1alpha1"

/-- The members of a cluster config; version and kind are not looked at. -/
def form : RecordForm ClusterConfig :=
  let metadata := Field.required "metadata" ObjectMeta.form.decode
  let spec := Field.required "spec" ClusterConfigSpec.form.decode
  let status := Field.optional "status" ClusterConfigStatus.form.decode
  { title := "struct ClusterConfig"
    known := [metadata.known, spec.known, status.known.inArray]
    build := fun ms => return {
      metadata := ← metadata.take ms
      spec := ← spec.take ms
      status := ← status.take ms } }

def toValue (c : ClusterConfig) : Value :=
  .object (member "apiVersion" (.string apiVersion) ++
    member "kind" (.string "ClusterConfig") ++
    member "metadata" c.metadata.toValue ++
    member "spec" c.spec.toValue ++
    optionalMember "status" ClusterConfigStatus.toValue c.status)

def key (c : ClusterConfig) : ObjectKey := c.metadata.key

def hasFinalizer (c : ClusterConfig) : Bool := c.metadata.finalizerList.any (· == ourFinalizer)

end ClusterConfig

end Relocation
