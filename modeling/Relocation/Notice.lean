import Relocation.Error
import Relocation.Objects.Key

/-!
Notices that the controller puts into its log: what happened, to which object, and how grave it is.
-/

set_option autoImplicit false

namespace Relocation

/-- How grave a notice is. -/
inductive Level
  | error
  | warn
  | info
  | debug
  | trace
  deriving DecidableEq, Repr

def Level.text : Level → String
  | .error => "ERROR"
  | .warn => "WARN"
  | .info => "INFO"
  | .debug => "DEBUG"
  | .trace => "TRACE"

/-- What is put into the log. -/
inductive Notice
  | reconcileStarted
  | reconcileComplete
  | finalizerAdded (config : ObjectKey)
  | finalizerRemoved (config : ObjectKey)
  | filesRemoved (config : ObjectKey)
  | exportBusy (config : ObjectKey)
  | imageSet (host : ObjectKey) (url : String)
  | imageRemoved (host : ObjectKey)
  | hostMissing (host : ObjectKey)
  | hostGone (config : ObjectKey)
  | hostClaimedOften (host : ObjectKey) (count : Nat)
  | hostShared (host : ObjectKey) (configs : List ObjectKey)
  | auditComplete (configs shared : Nat)
  | auditFailed (cause : Error)
  | willRetry (config : ObjectKey) (cause : Error)
  | waitsForChange (config : ObjectKey) (cause : Error)
  deriving DecidableEq

/-- The value of a part of a notice. -/
inductive NoticePart
  | text (s : String)
  | count (n : Nat)
  deriving DecidableEq, Repr

namespace Notice

def level : Notice → Level
  | .waitsForChange _ _ => .error
  | .hostMissing _ | .hostClaimedOften _ _ | .hostShared _ _ | .auditFailed _ | .willRetry _ _ =>
    .warn
  | _ => .info

def message : Notice → String
  | .reconcileStarted => "Running reconcile"
  | .reconcileComplete => "Reconcile complete"
  | .finalizerAdded _ => "Adding finalizer"
  | .finalizerRemoved _ => "Removing finalizer"
  | .filesRemoved _ => "Removing files for cluster config"
  | .exportBusy _ => "requeueing due to lock contention"
  | .imageSet _ _ => "Setting BareMetalHost image"
  | .imageRemoved _ => "Removing image from BareMetalHost"
  | .hostMissing _ => "Referenced BareMetalHost does not exist"
  | .hostGone _ => "BareMetalHost already gone, skipping image removal"
  | .hostClaimedOften _ _ => "found multiple ClusterConfigs referencing BareMetalHost"
  | .hostShared _ _ => "BareMetalHost is referenced by multiple ClusterConfigs"
  | .auditComplete _ _ => "Host reference audit complete"
  | .auditFailed _ => "Failed to list ClusterConfigs for host reference audit"
  | .willRetry _ _ => "Reconcile failed, will retry"
  | .waitsForChange _ _ => "Reconcile failed, waiting for a change"

def parts : Notice → List (String × NoticePart)
  | .reconcileStarted | .reconcileComplete => []
  | .finalizerAdded config | .finalizerRemoved config | .filesRemoved config
  | .exportBusy config | .hostGone config => [("config", .text config.text)]
  | .imageSet host url => [("host", .text host.text), ("url", .text url)]
  | .imageRemoved host | .hostMissing host => [("host", .text host.text)]
  | .hostClaimedOften host count => [("host", .text host.text), ("count", .count count)]
  | .hostShared host configs =>
    [("host", .text host.text), ("configs", .text (", ".intercalate (configs.map ObjectKey.text)))]
  | .auditComplete configs shared => [("configs", .count configs), ("shared_hosts", .count shared)]
  | .auditFailed cause => [("error", .text cause.message)]
  | .willRetry config cause | .waitsForChange config cause =>
    [("config", .text config.text), ("error", .text cause.message)]

end Notice

end Relocation
