import Relocation.Program

/-!
A cluster kept in memory. Every stored object carries a version out of one ascending count, a patch
for an older version is refused, and a config that is marked for deletion goes when its last
finalizer goes.
-/

set_option autoImplicit false

namespace Relocation.Store

/-- The objects of a cluster, the last version given out, and how many patches were applied. -/
structure Memory where
  configs : Table ObjectKey ClusterConfig := .empty
  hosts : Table ObjectKey Host := .empty
  secrets : Table ObjectKey Secret := .empty
  version : Nat := 0
  hostPatches : Nat := 0
  configPatches : Nat := 0
  deriving Inhabited

/-- Metadata with a version. -/
def stamped (m : ObjectMeta) (version : Nat) : ObjectMeta :=
  { m with resourceVersion := some version.repr }

/-- Whether a patch made for an expected version may be applied; without one it always may. -/
def isCurrent (m : ObjectMeta) (expected : Option String) : Bool :=
  match expected with
  | none => true
  | some v => m.resourceVersion = some v

namespace Memory

/-- Puts a config into the cluster, in the place of one with its key. -/
def insertConfig (m : Memory) (c : ClusterConfig) : Memory :=
  { m with
    configs := m.configs.insert c.key { c with metadata := stamped c.metadata (m.version + 1) }
    version := m.version + 1 }

/-- Puts a host into the cluster, in the place of one with its key. -/
def insertHost (m : Memory) (h : Host) : Memory :=
  { m with
    hosts := m.hosts.insert h.key { h with metadata := stamped h.metadata (m.version + 1) }
    version := m.version + 1 }

/-- Puts a secret into the cluster, in the place of one with its key. -/
def insertSecret (m : Memory) (s : Secret) : Memory :=
  { m with
    secrets := m.secrets.insert s.key { s with metadata := stamped s.metadata (m.version + 1) }
    version := m.version + 1 }

/-- Asks for the deletion of a config: one without finalizers goes at once, any other is marked with
the moment, once. -/
def deleteConfig (m : Memory) (now : Time.Timestamp) (key : ObjectKey) : Memory :=
  match m.configs.get? key with
  | none => m
  | some c =>
    if c.metadata.finalizerList.isEmpty then { m with configs := m.configs.erase key }
    else if c.metadata.isDeleting then m
    else
      let marked := { c.metadata with deletionTimestamp := some now }
      { m with
        configs := m.configs.insert key { c with metadata := stamped marked (m.version + 1) }
        version := m.version + 1 }

/-- Takes a host out of the cluster. -/
def removeHost (m : Memory) (key : ObjectKey) : Memory := { m with hosts := m.hosts.erase key }

/-- A list of finalizers as it is stored: none for the empty one. -/
def storedFinalizers (finalizers : List String) : Option (List String) :=
  if finalizers.isEmpty then none else some finalizers

/-- Changes the object of a key in one of the tables, unless there is none or it bears another
version than the change was made for. -/
def revise {α : Type} (table : Table ObjectKey α) (metadata : α → ObjectMeta) (kind : String)
    (key : ObjectKey) (version : Option String) (change : α → Memory) : Except Error Memory :=
  match table.get? key with
  | none => .error (.notFound kind key.text)
  | some x =>
    if !isCurrent (metadata x) version then .error (.conflict kind key.text) else .ok (change x)

/-- Replaces the finalizers of a config. -/
def patchFinalizers (m : Memory) (key : ObjectKey) (version : Option String)
    (finalizers : List String) : Except Error Memory :=
  revise m.configs ClusterConfig.metadata "ClusterConfig" key version fun c =>
    let released := finalizers.isEmpty && c.metadata.isDeleting
    let kept := { c.metadata with finalizers := storedFinalizers finalizers }
    { m with
      configs := if released then m.configs.erase key
        else m.configs.insert key { c with metadata := stamped kept (m.version + 1) }
      version := m.version + 1
      configPatches := m.configPatches + 1 }

/-- Applies a patch to a host. -/
def patchHost (m : Memory) (key : ObjectKey) (version : Option String) (patch : HostPatch) :
    Except Error Memory :=
  revise m.hosts Host.metadata "BareMetalHost" key version fun h =>
    { m with
      hosts := m.hosts.insert key
        { metadata := stamped h.metadata (m.version + 1), spec := patch.applyTo h.spec }
      version := m.version + 1
      hostPatches := m.hostPatches + 1 }

/-- A change that may be refused, as a reply and the cluster afterwards. -/
def commit (m : Memory) : Except Error Memory → Except Error Unit × Memory
  | .ok after => (.ok (), after)
  | .error e => (.error e, m)

/-- Answers a store call. -/
def answer : (call : StoreCall) → Memory → Except Error call.Result × Memory
  | .getConfig key, m => (.ok (m.configs.get? key), m)
  | .listConfigs, m => (.ok m.configs.values, m)
  | .patchFinalizers key version finalizers, m =>
    m.commit (m.patchFinalizers key version finalizers)
  | .getSecret key, m => (.ok (m.secrets.get? key), m)
  | .getHost key, m => (.ok (m.hosts.get? key), m)
  | .patchHost key version patch, m => m.commit (m.patchHost key version patch)

end Memory

end Relocation.Store
