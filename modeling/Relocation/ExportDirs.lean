import Relocation.Files.Path
import Relocation.Objects.Key

/-!
Where the data of a config is exported to, and the files that are written there.
-/

set_option autoImplicit false

namespace Relocation

/-- What is exported for a config. -/
inductive Artifact
  | descriptor
  | apiCert
  | ingressCert
  | pullSecret
  | acmSecret
  deriving DecidableEq, Repr

namespace Artifact

/-- The artifacts in the order in which they are written. -/
def all : List Artifact := [.descriptor, .apiCert, .ingressCert, .pullSecret, .acmSecret]

def fileName : Artifact → String
  | .descriptor => "cluster-relocation.json"
  | .apiCert => "api-cert-secret.json"
  | .ingressCert => "ingress-cert-secret.json"
  | .pullSecret => "pull-secret-secret.json"
  | .acmSecret => "acm-secret.json"

def title : Artifact → String
  | .descriptor => "cluster relocation"
  | .apiCert => "api cert secret"
  | .ingressCert => "ingress cert secret"
  | .pullSecret => "pull secret"
  | .acmSecret => "ACM secret"

end Artifact

/-- The directories of an export: the one that is locked and removed as a whole, and the one below
it that holds the files. -/
structure ExportDirs where
  lock : Path
  files : Path
  deriving DecidableEq, Repr

/-- The export directories of a key. -/
def exportDirs (dataDir : Path) (key : ObjectKey) : ExportDirs :=
  let lock := ((dataDir.join "namespaces").join key.space).join key.name
  ⟨lock, lock.join "files"⟩

end Relocation
