import Relocation.Scenario.Step

/-!
A controller at work over time. It knows the configs of its first listing and of the events since,
reconciles every config that is listed or changed, tries again when a reconcile asks for it, and on
an event of a host reconciles the configs that reference the host.
-/

set_option autoImplicit false

namespace Relocation.Scenario

/-- A key that waits for its turn, and when that is, in milliseconds. -/
structure Turn where
  key : ObjectKey
  due : Nat
  deriving DecidableEq, Repr

/-- What an event does to the configs or to a host. -/
inductive Event
  | configChanged (config : ClusterConfig)
  | configDeleted (config : ClusterConfig)
  | hostTouched (host : Host)

/-- A controller at work: the scenario, the time, the configs it knows, and the keys that wait. -/
structure Live where
  state : State
  now : Nat := 0
  known : Table ObjectKey ClusterConfig := .empty
  turns : List Turn := []

namespace Live

/-- Puts a key in line; of two turns of a key the earlier stays. -/
def schedule (turns : List Turn) (turn : Turn) : List Turn :=
  if turns.any fun t => t.key = turn.key && t.due ≤ turn.due then turns
  else turns.filter (·.key ≠ turn.key) ++ [turn]

def trigger (l : Live) (key : ObjectKey) : Live :=
  { l with turns := schedule l.turns ⟨key, l.now⟩ }

/-- The turn that comes next: the earliest, and of those the first in line. -/
def nextTurn : List Turn → Option Turn
  | [] => none
  | t :: rest =>
    match nextTurn rest with
    | some u => some (if u.due < t.due then u else t)
    | none => some t

/-- Takes a turn: a config that is known is reconciled, and comes again when that asks for it. -/
def take (l : Live) (t : Turn) : Live :=
  let l := { l with now := max l.now t.due, turns := l.turns.erase t }
  if (l.known.get? t.key).isNone then l
  else
    let ((_, action), state) := l.state.controllerReconcile t.key
    let l := { l with state }
    match action with
    | .awaitChange => l
    | .requeue ms => { l with turns := schedule l.turns ⟨t.key, l.now + ms⟩ }

/-- Takes the turns that are due until a time, at most as many as the fuel. -/
def runUntil (deadline : Nat) : (fuel : Nat) → Live → Live
  | 0, l => l
  | fuel + 1, l =>
    match nextTurn l.turns with
    | none => l
    | some t => if t.due ≤ deadline then runUntil deadline fuel (l.take t) else l

/-- The most turns that are taken while some time passes. -/
def maxTurns : Nat := 1000000

def idle (l : Live) (milliseconds : Nat) : Live :=
  let deadline := l.now + milliseconds
  { runUntil deadline maxTurns l with now := deadline }

/-- A controller that starts on a scenario: it lists the configs and puts all of them in line. -/
def start (s : State) : Live :=
  let l : Live := { state := s, known := s.memory.configs }
  (s.memory.configs.toList.map (·.1)).foldl trigger l

def deliver (l : Live) : Event → Live
  | .configChanged c => ({ l with known := l.known.insert c.key c } : Live).trigger c.key
  | .configDeleted c => { l with known := l.known.erase c.key }
  | .hostTouched h =>
    let resolved := if h.isTombstone then none else some h
    (configsForHost resolved l.known.values).foldl trigger l

/-- What the controller asks the cluster for: to list and to watch hosts and configs. -/
def requestLines : List String :=
  let hosts := "GET /apis/" ++ Host.apiVersion ++ "/baremetalhosts"
  let configs := "GET /apis/" ++ ClusterConfig.apiVersion ++ "/clusterconfigs"
  [hosts, hosts ++ " watch", configs, configs ++ " watch"]

end Live

end Relocation.Scenario
