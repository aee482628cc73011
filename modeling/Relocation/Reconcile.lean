import Relocation.HostReferences
import Relocation.Lifecycle
import Relocation.Settings

/-!
Reconciling one config: its life, its export, and the boot image of its host, in this order, up to
the first step that asks for another run.
-/

set_option autoImplicit false

namespace Relocation

/-- What a reconcile knows: where data is exported to and where images are offered. -/
structure ReconcileContext where
  dataDir : Path
  serviceUrl : String
  deriving DecidableEq, Repr

/-- Makes the host of a config boot its image, if it references one. -/
def syncHost (serviceUrl : String) (key : ObjectKey) (c : ClusterConfig) : Program Unit := do
  match c.spec.bareMetalHostRef with
  | none => return ()
  | some r =>
    let _ ← setImage r (imageUrl serviceUrl key)
    return ()

/-- Exports a config and makes its host boot the image. -/
def converge (ctx : ReconcileContext) (key : ObjectKey) (c : ClusterConfig) : Program Outcome := do
  let exported ← exportConfig ctx.dataDir c
  if exported.isRequeue then return exported
  else
    syncHost ctx.serviceUrl key c
    Program.note .reconcileComplete
    return .settled

/-- Reconciles the config of a key; one that does not exist needs nothing. -/
def reconcile (ctx : ReconcileContext) (key : ObjectKey) : Program Outcome := do
  Program.note .reconcileStarted
  match ← Program.store (.getConfig key) with
  | none => return .settled
  | some c =>
    match ← lifecycleStep ctx.dataDir c with
    | .halt outcome => return outcome
    | .proceed => converge ctx key c

/-- Puts the notices into the log, one after the other. -/
def noteAll : List Notice → Program Unit
  | [] => return ()
  | n :: rest => do
    Program.note n
    noteAll rest

/-- Warns of every host that more than one config references; a failing look-up of the configs is
only noted. -/
def auditHostReferences : Program Unit := do
  match ← (Program.store .listConfigs).attempt with
  | .error e => Program.note (.auditFailed e)
  | .ok configs => noteAll (auditNotices configs)

end Relocation
