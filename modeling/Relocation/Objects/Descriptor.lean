import Relocation.Error
import Relocation.Objects.ClusterConfig

/-!
The descriptor that is exported for a cluster config: its relocation settings under the version and
the kind that the reader of the image expects. Versions are looked up in a table of kinds.
-/

set_option autoImplicit false

namespace Relocation

open Json

/-- The versions of a kind of objects, the newest last. -/
structure KindEntry where
  kind : String
  group : String
  versions : List String
  deriving DecidableEq, Repr

/-- The version and the kind that an object is stamped with. -/
structure TypeStamp where
  apiVersion : String
  kind : String
  deriving DecidableEq, Repr

abbrev KindTable := List KindEntry

def descriptorKind : String := "ClusterRelocation"

def KindTable.standard : KindTable := [
  ⟨descriptorKind, "rhsyseng.github.io", ["v1beta1"]⟩,
  ⟨"ClusterConfig", "relocation.openshift.io", ["v1alpha1"]⟩,
  ⟨"BareMetalHost", "metal3.io", ["v1alpha1"]⟩]

/-- The stamp of a kind: the newest version of its first entry. -/
def KindTable.stamp (t : KindTable) (kind : String) : Except Error TypeStamp :=
  match t.find? (·.kind = kind) with
  | none => .error (.internal ("unable to find API version for " ++ kind))
  | some entry =>
    match entry.versions.getLast? with
    | none => .error (.internal ("no versions registered for " ++ kind))
    | some version =>
      .ok ⟨if entry.group.isEmpty then version else entry.group ++ "/" ++ version, entry.kind⟩

/-- A descriptor. -/
structure Descriptor where
  apiVersion : String
  kind : String
  metadata : ObjectMeta
  spec : RelocationSettings

namespace Descriptor

def form : RecordForm Descriptor :=
  let apiVersion := Field.required "apiVersion" Decoder.string
  let kind := Field.required "kind" Decoder.string
  let metadata := Field.required "metadata" ObjectMeta.form.decode
  let spec := Field.required "spec" RelocationSettings.form.decode
  { title := "struct ClusterRelocation"
    known := [apiVersion.known, kind.known, metadata.known, spec.known]
    build := fun ms => return {
      apiVersion := ← apiVersion.take ms
      kind := ← kind.take ms
      metadata := ← metadata.take ms
      spec := ← spec.take ms } }

def toValue (d : Descriptor) : Value :=
  .object (member "apiVersion" (.string d.apiVersion) ++
    member "kind" (.string d.kind) ++
    member "metadata" d.metadata.toValue ++
    member "spec" d.spec.toValue)

/-- The descriptor of a config, stamped from a table of kinds. It keeps the name and the namespace
of the config and nothing else of its metadata. -/
def ofConfig (c : ClusterConfig) (kinds : KindTable) : Except Error Descriptor := do
  let stamp ← kinds.stamp descriptorKind
  return {
    apiVersion := stamp.apiVersion
    kind := stamp.kind
    metadata := { name := some c.metadata.anyName, space := c.metadata.space }
    spec := c.spec.relocation }

end Descriptor

end Relocation
