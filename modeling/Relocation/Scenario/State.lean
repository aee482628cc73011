import Relocation.Controller
import Relocation.Files.Calls
import Relocation.Reconcile
import Relocation.Store.Api
import Relocation.Store.Memory

/-!
The state of a scenario: a cluster in memory, a tree of files and a controller, with faults that
wait for store calls. Either the store calls of the controller go to the cluster in memory, or they
become requests to which scripted responses are given. All that can be seen from outside while a
step is played is written into a journal.
-/

set_option autoImplicit false

namespace Relocation.Scenario

open Files (Entry FileSystem Location)
open Store (ApiRequest ApiResponse Memory)

/-- What happens to the object of a call before the call is answered. -/
inductive Touch
  | config
  | host
  | removeHost
  | deleteConfig
  deriving DecidableEq, Repr

/-- What goes wrong at the next call of a method. -/
structure Fault where
  method : String
  touch : Option Touch
  error : Option Error

/-- What can be seen of a step. -/
structure Journal where
  calls : List String := []
  notices : List Notice := []
  requests : List ApiRequest := []
  deriving Inhabited

/-- The state of a scenario. -/
structure State where
  context : ReconcileContext
  work : Location
  clock : Time.Timestamp
  draw : DrawDelay
  viaApi : Bool
  memory : Memory := {}
  files : FileSystem := {}
  faults : List Fault := []
  responses : List ApiResponse := []
  guards : Table String Nat := .empty
  controller : Controller := {}
  journal : Journal := {}

/-- The locations above some names and of the names themselves. -/
def prefixes (before : Location) : List String → List Location
  | [] => []
  | name :: rest => (before ++ [name]) :: prefixes (before ++ [name]) rest

/-- A scenario at its start: an empty cluster, and the working directory with those above it. -/
def State.start (settings : Settings) (work : Location) (viaApi : Bool)
    (clock : Time.Timestamp) (draw : DrawDelay) : State where
  context := ⟨⟨false, work ++ ["data"]⟩, settings.serviceUrl⟩
  work := work
  clock := clock
  draw := draw
  viaApi := viaApi
  files := (prefixes [] work).foldl (fun fs l => fs.place l (.directory 0o755)) {}

namespace State

def methodName : StoreCall → String
  | .getConfig _ => "get_config"
  | .listConfigs => "list_configs"
  | .patchFinalizers _ _ _ => "patch_config_finalizers"
  | .getSecret _ => "get_secret"
  | .getHost _ => "get_host"
  | .patchHost _ _ _ => "patch_host"

def callKey? : StoreCall → Option ObjectKey
  | .getConfig key | .patchFinalizers key _ _ | .getSecret key | .getHost key
  | .patchHost key _ _ => some key
  | .listConfigs => none

def callText (call : StoreCall) : String :=
  match callKey? call with
  | some key => methodName call ++ " " ++ key.text
  | none => methodName call

def logCall (s : State) (call : StoreCall) : State :=
  { s with journal := { s.journal with calls := s.journal.calls ++ [callText call] } }

def logNotice (s : State) (n : Notice) : State :=
  { s with journal := { s.journal with notices := s.journal.notices ++ [n] } }

def logRequest (s : State) (r : ApiRequest) : State :=
  { s with journal := { s.journal with requests := s.journal.requests ++ [r] } }

def touch (s : State) (key : ObjectKey) : Touch → State
  | .config =>
    match s.memory.configs.get? key with
    | some c => { s with memory := s.memory.insertConfig c }
    | none => s
  | .host =>
    match s.memory.hosts.get? key with
    | some h => { s with memory := s.memory.insertHost h }
    | none => s
  | .removeHost => { s with memory := s.memory.removeHost key }
  | .deleteConfig => { s with memory := s.memory.deleteConfig s.clock key }

/-- Takes the first fault of a method out of those that wait. -/
def takeFault (method : String) : List Fault → Option (Fault × List Fault)
  | [] => none
  | f :: rest =>
    if f.method = method then some (f, rest)
    else (takeFault method rest).map fun r => (r.1, f :: r.2)

/-- Lets the first waiting fault of a call happen; gives the error that it fails the call with. -/
def fire (s : State) (call : StoreCall) : Option Error × State :=
  match takeFault (methodName call) s.faults with
  | none => (none, s)
  | some (f, rest) =>
    let s := { s with faults := rest }
    let s := match f.touch, callKey? call with
      | some t, some key => s.touch key t
      | _, _ => s
    (f.error, s)

/-- The failure to get a response when none is scripted. -/
def noResponse : ApiResponse := .failed "no response scripted"

/-- Sends the request of a call and reads the next scripted response. -/
def askApi (s : State) (call : StoreCall) : Except Error call.Result × State :=
  match Store.sendable call with
  | .error e => (.error (.api e), s)
  | .ok request =>
    let s := s.logRequest request
    match s.responses with
    | [] => (Store.resultOf call noResponse, s)
    | r :: rest => (Store.resultOf call r, { s with responses := rest })

def askStore (s : State) (call : StoreCall) : Except Error call.Result × State :=
  if s.viaApi then s.askApi call
  else
    let (r, m) := Memory.answer call s.memory
    (r, { s with memory := m })

def world : Program.World State
  | .store call, s =>
    let (failure, s) := (s.logCall call).fire call
    match failure with
    | some e => (.error e, s)
    | none => s.askStore call
  | .file call, s =>
    let (r, fs) := FileSystem.answer call s.files
    (r, { s with files := fs })
  | .note n, s => ((), s.logNotice n)

def play {α : Type} (s : State) (p : Program α) : Except Error α × State := p.run world s

def pathOf (s : State) (text : String) : Path := (Path.mk false s.work).join text

end State

/-- The path of a location below another, with slashes. -/
def relativeText (base location : Location) : String :=
  "/".intercalate (location.drop base.length)

/-- What stands below the working directory, in order. -/
def State.tree (s : State) : List (String × Entry) :=
  (s.files.entries.toList.filter fun e =>
    s.work.isPrefixOf e.1 && s.work.length < e.1.length).map fun e =>
      (relativeText s.work e.1, e.2)

/-- The files below the working directory that were made or written since an earlier state. -/
def State.writtenSince (s before : State) : List String :=
  (s.files.entries.toList.filter fun e =>
    s.work.isPrefixOf e.1 && match e.2, before.files.entries.get? e.1 with
      | .file i _ c, some (.file j _ d) => i ≠ j || c ≠ d
      | .file _ _ _, _ => true
      | _, _ => false).map fun e => relativeText s.work e.1

end Relocation.Scenario
