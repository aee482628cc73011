import Relocation.Json.Decode
import Relocation.Json.Encode
import Relocation.Objects.Key

/-!
The settings that the relocation of a cluster needs: the new domain, certificates, the pull secret,
mirrors and keys.
-/

set_option autoImplicit false

namespace Relocation

open Json

/-- A reference to a secret. -/
structure SecretReference where
  name : String
  space : String
  deriving DecidableEq, Repr, Inhabited

/-- An operator catalogue to install. -/
structure CatalogSource where
  name : String
  image : String
  deriving DecidableEq, Repr, Inhabited

/-- The mirrors of a source registry, the preferred one first. -/
structure ImageDigestMirrors where
  source : String
  mirrors : List String
  mirrorSourcePolicy : Option String
  deriving DecidableEq, Repr, Inhabited

/-- A trusted certificate of a registry. -/
structure RegistryCert where
  registryHostname : String
  registryPort : Option Int32
  certificate : String
  deriving DecidableEq, Repr, Inhabited

/-- The settings that the relocated cluster reads. -/
structure RelocationSettings where
  apiCertRef : Option SecretReference := none
  catalogSources : List CatalogSource := []
  domain : String
  imageDigestMirrors : List ImageDigestMirrors := []
  ingressCertRef : Option SecretReference := none
  pullSecretRef : Option SecretReference := none
  registryCert : Option RegistryCert := none
  sshKeys : List String := []
  deriving DecidableEq, Repr, Inhabited

namespace SecretReference

def form : RecordForm SecretReference :=
  let name := Field.required "name" Decoder.string
  let space := Field.required "namespace" Decoder.string
  { title := "struct SecretReference"
    known := [name.known, space.known]
    build := fun ms => return { name := ← name.take ms, space := ← space.take ms } }

def toValue (r : SecretReference) : Value :=
  .object (member "name" (.string r.name) ++ member "namespace" (.string r.space))

def key (r : SecretReference) : ObjectKey := ⟨r.space, r.name⟩

end SecretReference

namespace CatalogSource

def form : RecordForm CatalogSource :=
  let name := Field.required "name" Decoder.string
  let image := Field.required "image" Decoder.string
  { title := "struct CatalogSource"
    known := [name.known, image.known]
    build := fun ms => return { name := ← name.take ms, image := ← image.take ms } }

def toValue (c : CatalogSource) : Value :=
  .object (member "name" (.string c.name) ++ member "image" (.string c.image))

end CatalogSource

namespace ImageDigestMirrors

def form : RecordForm ImageDigestMirrors :=
  let source := Field.required "source" Decoder.string
  let mirrors := Field.defaulted "mirrors" (Decoder.list Decoder.string) []
  let policy := Field.optional "mirrorSourcePolicy" Decoder.string
  { title := "struct ImageDigestMirrors"
    known := [source.known, mirrors.known, policy.known]
    build := fun ms => return {
      source := ← source.take ms
      mirrors := ← mirrors.take ms
      mirrorSourcePolicy := ← policy.take ms } }

def toValue (m : ImageDigestMirrors) : Value :=
  .object (member "source" (.string m.source) ++
    listMember "mirrors" .string m.mirrors ++
    optionalMember "mirrorSourcePolicy" .string m.mirrorSourcePolicy)

end ImageDigestMirrors

namespace RegistryCert

def form : RecordForm RegistryCert :=
  let hostname := Field.required "registryHostname" Decoder.string
  let port := Field.optional "registryPort" Decoder.int32
  let certificate := Field.required "certificate" Decoder.string
  { title := "struct RegistryCert"
    known := [hostname.known, port.known, certificate.known]
    build := fun ms => return {
      registryHostname := ← hostname.take ms
      registryPort := ← port.take ms
      certificate := ← certificate.take ms } }

def toValue (c : RegistryCert) : Value :=
  .object (member "registryHostname" (.string c.registryHostname) ++
    optionalMember "registryPort" .int32 c.registryPort ++
    member "certificate" (.string c.certificate))

end RegistryCert

namespace RelocationSettings

def form : RecordForm RelocationSettings :=
  let apiCertRef := Field.optional "apiCertRef" SecretReference.form.decode
  let catalogSources :=
    Field.defaulted "catalogSources" (Decoder.list CatalogSource.form.decode) []
  let domain := Field.required "domain" Decoder.string
  let imageDigestMirrors :=
    Field.defaulted "imageDigestMirrors" (Decoder.list ImageDigestMirrors.form.decode) []
  let ingressCertRef := Field.optional "ingressCertRef" SecretReference.form.decode
  let pullSecretRef := Field.optional "pullSecretRef" SecretReference.form.decode
  let registryCert := Field.optional "registryCert" RegistryCert.form.decode
  let sshKeys := Field.defaulted "sshKeys" (Decoder.list Decoder.string) []
  { title := "struct ClusterRelocationSpec"
    known := [apiCertRef.known, catalogSources.known, domain.known, imageDigestMirrors.known,
      ingressCertRef.known, pullSecretRef.known, registryCert.known, sshKeys.known]
    build := fun ms => return {
      apiCertRef := ← apiCertRef.take ms
      catalogSources := ← catalogSources.take ms
      domain := ← domain.take ms
      imageDigestMirrors := ← imageDigestMirrors.take ms
      ingressCertRef := ← ingressCertRef.take ms
      pullSecretRef := ← pullSecretRef.take ms
      registryCert := ← registryCert.take ms
      sshKeys := ← sshKeys.take ms } }

def parts (r : RelocationSettings) : Parts :=
  optionalMember "apiCertRef" SecretReference.toValue r.apiCertRef ++
    listMember "catalogSources" CatalogSource.toValue r.catalogSources ++
    member "domain" (.string r.domain) ++
    listMember "imageDigestMirrors" ImageDigestMirrors.toValue r.imageDigestMirrors ++
    optionalMember "ingressCertRef" SecretReference.toValue r.ingressCertRef ++
    optionalMember "pullSecretRef" SecretReference.toValue r.pullSecretRef ++
    optionalMember "registryCert" RegistryCert.toValue r.registryCert ++
    listMember "sshKeys" .string r.sshKeys

def toValue (r : RelocationSettings) : Value := .object r.parts

end RelocationSettings

end Relocation
