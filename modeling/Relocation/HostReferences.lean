import Relocation.Notice
import Relocation.Objects.ClusterConfig
import Relocation.Objects.Host

/-!
Who references a host: the configs that an event on a host concerns, and the hosts that more than
one config claims.
-/

set_option autoImplicit false

namespace Relocation

namespace ClusterConfig

/-- The key of the host that a config references. -/
def hostKey? (c : ClusterConfig) : Option ObjectKey := c.spec.bareMetalHostRef.map HostReference.key

/-- Whether a config references the host of a key. -/
def references (c : ClusterConfig) (host : ObjectKey) : Bool :=
  c.spec.bareMetalHostRef.any fun r => r.space = host.space && r.name = host.name

end ClusterConfig

/-- Whether a host that an event shows is gone: marked for deletion, and no finalizer holds it. -/
def Host.isTombstone (h : Host) : Bool :=
  h.metadata.isDeleting && h.metadata.finalizerList.isEmpty

/-- The keys of the configs that reference a host, in their order. An unresolved host has none. -/
def configsForHost (host : Option Host) (configs : List ClusterConfig) : List ObjectKey :=
  match host with
  | none => []
  | some h => (configs.filter fun c => c.references h.key).map ClusterConfig.key

/-- What is noticed while the configs of a host are looked for: that there is more than one. -/
def hostNotices (host : Option Host) (configs : List ClusterConfig) : List Notice :=
  match host, (configsForHost host configs).length with
  | some h, n => if 1 < n then [.hostClaimedOften h.key n] else []
  | none, _ => []

/-- The configs by the host that they reference, each in the order of the list. -/
def referrersByHost (configs : List ClusterConfig) : Table ObjectKey (List ObjectKey) :=
  configs.foldl (fun t c =>
    match c.spec.bareMetalHostRef with
    | none => t
    | some r => t.insert r.key ((t.get? r.key).getD [] ++ [c.key])) .empty

/-- The hosts that more than one config references, with those configs. -/
def sharedHosts (configs : List ClusterConfig) : Table ObjectKey (List ObjectKey) :=
  (referrersByHost configs).filter fun _ referrers => 1 < referrers.length

/-- What the audit notices about configs: every shared host in key order, then the sums. -/
def auditNotices (configs : List ClusterConfig) : List Notice :=
  (sharedHosts configs).toList.map (fun e => .hostShared e.1 e.2) ++
    [.auditComplete configs.length (sharedHosts configs).toList.length]

end Relocation
