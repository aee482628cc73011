import Relocation.Scenario.State

/-!
The steps of a scenario: changes of the cluster and of the files from outside, runs of parts of the
controller, and looks at the state.
-/

set_option autoImplicit false

namespace Relocation.Scenario

open Files (FileSystem)
open Store (ApiResponse)

/-- A step of a scenario. -/
inductive Step
  | insertConfig (config : ClusterConfig)
  | insertHost (host : Host)
  | insertSecret (secret : Secret)
  | deleteConfig (key : ObjectKey)
  | removeHost (key : ObjectKey)
  | queueFault (fault : Fault)
  | getConfig (key : ObjectKey)
  | getHost (key : ObjectKey)
  | getSecret (key : ObjectKey)
  | listConfigs
  | patchFinalizers (key : ObjectKey) (version : Option String) (finalizers : List String)
  | patchHost (key : ObjectKey) (version : Option String) (patch : HostPatch)
  | counts
  | exportConfig (config : ClusterConfig)
  | removeExport (key : ObjectKey)
  | setImage (host : HostReference) (url : String)
  | clearImage (host : HostReference)
  | lifecycle (config : ClusterConfig)
  | reconcile (key : ObjectKey)
  | controllerReconcile (key : ObjectKey)
  | errorPolicy (key : ObjectKey) (error : Error) (times : Nat)
  | metrics
  | audit
  | lock (path id : String)
  | unlock (id : String)
  | withLock (path : String) (failure : Option Error)
  | writeFile (path content : String)
  | makeDir (path : String)
  | link (path target : String)
  | removePath (path : String)
  | respond (response : ApiResponse)
  | look

/-- What a step answers. -/
inductive Answer
  | nothing
  | truth (b : Bool)
  | key (k : ObjectKey)
  | config (c : Option ClusterConfig)
  | host (h : Option Host)
  | secret (s : Option Secret)
  | configs (cs : List ClusterConfig)
  | counts (hostPatches configPatches : Nat)
  | outcome (o : Outcome)
  | cleanup (c : HostCleanup)
  | lifecycle (s : LifecycleStep)
  | handled (failure : Option Error) (action : Action)
  | policy (error : Error) (action : Action)
  | samples (counts : List (String × Nat))
  | locked (ran : Bool) (result : Except Error (Option Bool))
  | state (s : State)

/-- Whether a step only sets up files, so that what it writes is not reported. -/
def Step.isFileSetup : Step → Bool
  | .writeFile _ _ | .makeDir _ | .link _ _ | .removePath _ => true
  | _ => false

namespace State

/-- Tries whether a directory can be locked; a lock that is got is given back at once. -/
def probeLock (dir : Path) : Program Bool := do
  match ← (tryWriteLock dir).attempt with
  | .ok (some inode) =>
    let _ ← Program.tryFile (.release inode)
    return true
  | _ => return false

/-- Plays a program and turns its result into an answer. -/
def playAs {α : Type} (s : State) (p : Program α) (f : α → Answer) : Except Error Answer × State :=
  let (r, s) := s.play p
  (r.map f, s)

def removePath (s : State) (text : String) : Bool × State :=
  let p := s.pathOf text
  match s.files.resolveName p with
  | .ok (.directory _) =>
    let (r, s) := s.play (removeTree p)
    (r.isOk, s)
  | _ =>
    match s.files.remove (.unlinkPath p) with
    | .ok fs => (true, { s with files := fs })
    | .error _ => (false, s)

def makeLink (s : State) (text target : String) : Bool × State :=
  match s.files.resolveName (s.pathOf text) with
  | .ok (.absent location _) =>
    if text.endsWith "/" || target.isEmpty then (false, s)
    else (true, { s with files := s.files.place location (.link target) })
  | _ => (false, s)

/-- Locks a directory under a name; a lock held under the name before is given back only then. -/
def lock (s : State) (text id : String) : Except Error Answer × State :=
  let (r, s) := s.play (tryWriteLock (s.pathOf text))
  match r with
  | .error e => (.error e, s)
  | .ok none => (.ok (.truth false), s)
  | .ok (some inode) =>
    let files := match s.guards.get? id with
      | some old => s.files.release old
      | none => s.files
    (.ok (.truth true), { s with files, guards := s.guards.insert id inode })

def unlock (s : State) (id : String) : Bool × State :=
  match s.guards.get? id with
  | none => (false, s)
  | some inode =>
    (true, { s with files := s.files.release inode, guards := s.guards.erase id })

def unlockAll (s : State) : State :=
  { s with
    files := s.guards.values.foldl FileSystem.release s.files
    guards := .empty }

/-- Reconciles a key as the controller does, and handles a failure; gives the failure and what is
done next. -/
def controllerReconcile (s : State) (key : ObjectKey) : (Option Error × Action) × State :=
  let (r, s) := s.play (Relocation.reconcile s.context key)
  let s := { s with controller := s.controller.afterReconcile key r 0 }
  match r with
  | .ok outcome => ((none, outcome.action), s)
  | .error e =>
    let policy := s.controller.onError s.draw key e
    let s := policy.notices.foldl logNotice { s with controller := policy.controller }
    ((some e, policy.action), s)

/-- Handles an error of a key some times over; gives what is done the last time. -/
def errorPolicy (s : State) (key : ObjectKey) (e : Error) : (times : Nat) → Action × State
  | 0 => (.awaitChange, s)
  | times + 1 =>
    let policy := s.controller.onError s.draw key e
    let s := policy.notices.foldl logNotice { s with controller := policy.controller }
    if times = 0 then (policy.action, s) else errorPolicy s key e times

def perform (s : State) : Step → Except Error Answer × State
  | .insertConfig c => (.ok (.key c.key), { s with memory := s.memory.insertConfig c })
  | .insertHost h => (.ok (.key h.key), { s with memory := s.memory.insertHost h })
  | .insertSecret x => (.ok (.key x.key), { s with memory := s.memory.insertSecret x })
  | .deleteConfig key =>
    let memory := s.memory.deleteConfig s.clock key
    (.ok (.config (memory.configs.get? key)), { s with memory })
  | .removeHost key => (.ok .nothing, { s with memory := s.memory.removeHost key })
  | .queueFault f => (.ok .nothing, { s with faults := s.faults ++ [f] })
  | .getConfig key => s.playAs (Program.store (.getConfig key)) .config
  | .getHost key => s.playAs (Program.store (.getHost key)) .host
  | .getSecret key => s.playAs (Program.store (.getSecret key)) .secret
  | .listConfigs => s.playAs (Program.store .listConfigs) .configs
  | .patchFinalizers key version finalizers =>
    let (r, s) := s.play (Program.store (.patchFinalizers key version finalizers))
    (r.map fun _ => .config (s.memory.configs.get? key), s)
  | .patchHost key version patch =>
    let (r, s) := s.play (Program.store (.patchHost key version patch))
    (r.map fun _ => .host (s.memory.hosts.get? key), s)
  | .counts => (.ok (.counts s.memory.hostPatches s.memory.configPatches), s)
  | .exportConfig c => s.playAs (Relocation.exportConfig s.context.dataDir c) .outcome
  | .removeExport key => s.playAs (Relocation.removeExport s.context.dataDir key) .outcome
  | .setImage r url => s.playAs (Relocation.setImage r url) .truth
  | .clearImage r => s.playAs (Relocation.clearImage r) .cleanup
  | .lifecycle c => s.playAs (lifecycleStep s.context.dataDir c) .lifecycle
  | .reconcile key => s.playAs (Relocation.reconcile s.context key) .outcome
  | .controllerReconcile key =>
    let ((failure, action), s) := s.controllerReconcile key
    (.ok (.handled failure action), s)
  | .errorPolicy key e times =>
    let (action, s) := s.errorPolicy key e times
    (.ok (.policy e action), s)
  | .metrics => (.ok (.samples s.controller.metrics.samples), s)
  | .audit => s.playAs auditHostReferences fun _ => .nothing
  | .lock path id => s.lock path id
  | .unlock id =>
    let (held, s) := s.unlock id
    (.ok (.truth held), s)
  | .withLock path failure =>
    let dir := s.pathOf path
    let action : Program Bool := do
      let nested ← probeLock dir
      match failure with
      | some e => Program.fail e
      | none => return nested
    let (r, s) := s.play (withWriteLock dir action.attempt)
    (.ok (match r with
      | .ok (some result) => .locked true (result.map some)
      | .ok none => .locked false (.ok none)
      | .error e => .locked false (.error e)), s)
  | .writeFile path content =>
    match s.files.writeFile 0o644 (s.pathOf path) content with
    | .ok files => (.ok (.truth true), { s with files })
    | .error _ => (.ok (.truth false), s)
  | .makeDir path =>
    let (r, files) := s.files.makeDirs 0o755 (s.pathOf path)
    (.ok (.truth r.isOk), { s with files })
  | .link path target =>
    let (made, s) := s.makeLink path target
    (.ok (.truth made), s)
  | .removePath path =>
    let (gone, s) := s.removePath path
    (.ok (.truth gone), s)
  | .respond response => (.ok .nothing, { s with responses := s.responses ++ [response] })
  | .look => (.ok (.state s), s)

def next (s : State) (step : Step) : Except Error Answer × State :=
  ({ s with journal := {} } : State).perform step

end State

end Relocation.Scenario
