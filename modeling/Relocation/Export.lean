import Relocation.ExportDirs
import Relocation.Objects.Descriptor
import Relocation.Outcome
import Relocation.WriteLock

/-!
Exporting the data of a config and removing it again, each under the write lock of its directory.
-/

set_option autoImplicit false

namespace Relocation

open Files (IoError Removal)

/-- Milliseconds to wait when another holds the lock of an export directory. -/
def lockRetryDelay : Nat := 5000

/-- The secrets that a spec references, in the order in which they are exported. -/
def ClusterConfigSpec.secretReferences (s : ClusterConfigSpec) :
    List (Artifact × SecretReference) :=
  [(Artifact.apiCert, s.relocation.apiCertRef),
    (.ingressCert, s.relocation.ingressCertRef),
    (.pullSecret, s.relocation.pullSecretRef),
    (.acmSecret, s.acmRegistration.map AcmRegistration.acmSecret)].filterMap
    fun p => p.2.map fun r => (p.1, r)

def secretText (r : SecretReference) : Program String := do
  match ← Program.store (.getSecret r.key) with
  | some secret => return secret.toValue.text
  | none => Program.fail (.notFound "Secret" r.key.text)

/-- The texts of referenced secrets, one after the other. -/
def secretTexts : List (Artifact × SecretReference) → Program (List (Artifact × String))
  | [] => return []
  | (artifact, r) :: rest => do
    let text ← secretText r
    let texts ← secretTexts rest
    return (artifact, text) :: texts

/-- The texts of all that a config calls for; everything is read before anything is written. -/
def collect (c : ClusterConfig) : Program (List (Artifact × String)) := do
  let descriptor ← Program.ofExcept (Descriptor.ofConfig c .standard)
  let texts ← secretTexts c.spec.secretReferences
  return (Artifact.descriptor, descriptor.toValue.text) :: texts

/-- Writes a file unless it holds the text already. -/
def writeIfChanged (path : Path) (text : String) : Program (Except IoError Unit) := do
  match ← Program.tryFile (.read path) with
  | .ok old => if old = text then return .ok () else Program.tryFile (.write path text)
  | .error e => if e.isNotFound then Program.tryFile (.write path text) else return .error e

/-- Writes artifacts one after the other; the first failure ends it. -/
def writeArtifacts (dir : Path) : List (Artifact × String) → Program Unit
  | [] => return ()
  | (artifact, text) :: rest => do
    match ← writeIfChanged (dir.join artifact.fileName) text with
    | .ok () => writeArtifacts dir rest
    | .error e => Program.fail (.artifact artifact.title e)

/-- The outcome of work under a lock: another attempt later when another held it. -/
def lockedOutcome (key : ObjectKey) : Option Unit → Program Outcome
  | some () => return .settled
  | none => do
    Program.note (.exportBusy key)
    return .requeueAfter lockRetryDelay

/-- Exports what a config calls for. -/
def exportConfig (dataDir : Path) (c : ClusterConfig) : Program Outcome := do
  let artifacts ← collect c
  let dirs := exportDirs dataDir c.key
  Program.file (.makeDirs dirs.files)
  let written ← withWriteLock dirs.lock (writeArtifacts dirs.files artifacts)
  lockedOutcome c.key written

/-- Takes away things one after the other; what is gone already is passed over. -/
def removeAll : List Removal → Program Unit
  | [] => return ()
  | step :: rest => do
    match ← Program.tryFile (.remove step) with
    | .ok () => removeAll rest
    | .error e => if e.isNotFound then removeAll rest else Program.fail (.io e)

/-- Removes a directory with all that is in it. -/
def removeTree (dir : Path) : Program Unit := do
  let steps ← Program.file (.planRemoval dir)
  removeAll steps

/-- The error of a directory that cannot be looked at. -/
def statError (dir : Path) (e : IoError) : Error :=
  .io (.custom ("failed to stat config directory " ++ dir.text ++ ": " ++ e.message))

/-- Removes what was exported for a key, if anything. -/
def removeExport (dataDir : Path) (key : ObjectKey) : Program Outcome := do
  let dirs := exportDirs dataDir key
  match ← Program.tryFile (.stat dirs.lock) with
  | .error e => if e.isNotFound then return .settled else Program.fail (statError dirs.lock e)
  | .ok () =>
    let removed ← withWriteLock dirs.lock do
      Program.note (.filesRemoved key)
      removeTree dirs.lock
    lockedOutcome key removed

end Relocation
