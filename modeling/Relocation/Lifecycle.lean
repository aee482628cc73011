import Relocation.Export
import Relocation.HostImageSync

/-!
The life of a config: it is guarded by our finalizer before anything is done for it, and released
when its export is gone and its host no longer boots the image.
-/

set_option autoImplicit false

namespace Relocation

/-- Whether a reconcile goes on after the finalizer was looked after. -/
inductive LifecycleStep
  | proceed
  | halt (outcome : Outcome)
  deriving DecidableEq, Repr

/-- Guards a living config with our finalizer. -/
def ensureFinalizer (c : ClusterConfig) : Program LifecycleStep := do
  if c.hasFinalizer then return .proceed
  else
    Program.note (.finalizerAdded c.key)
    Program.store
      (.patchFinalizers c.key c.metadata.resourceVersion
        (c.metadata.finalizerList ++ [ourFinalizer]))
    return .halt .requeueNow

/-- Takes our finalizer away from a config. -/
def releaseFinalizer (c : ClusterConfig) : Program LifecycleStep := do
  Program.note (.finalizerRemoved c.key)
  Program.store (.patchFinalizers c.key c.metadata.resourceVersion
    (c.metadata.finalizerList.filter (· != ourFinalizer)))
  return .halt .settled

/-- Cleans up the host of a config, if it references one. -/
def releaseHost (c : ClusterConfig) : Program Unit := do
  match c.spec.bareMetalHostRef with
  | none => return ()
  | some r =>
    match ← clearImage r with
    | .missing => Program.note (.hostGone c.key)
    | _ => return ()

/-- Cleans up after a config that is marked for deletion, and releases it. -/
def terminate (dataDir : Path) (c : ClusterConfig) : Program LifecycleStep := do
  if !c.hasFinalizer then return .halt .settled
  else
    let removed ← removeExport dataDir c.key
    if removed.isRequeue then return .halt removed
    else
      releaseHost c
      releaseFinalizer c

/-- One step in the life of a config. -/
def lifecycleStep (dataDir : Path) (c : ClusterConfig) : Program LifecycleStep :=
  if c.metadata.isDeleting then terminate dataDir c else ensureFinalizer c

end Relocation
