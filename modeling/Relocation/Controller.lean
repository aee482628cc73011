import Relocation.HostReferences
import Relocation.Metrics
import Relocation.Outcome

/-!
What the controller remembers between reconciles: its measurements, and for each failing config how
often it was put off since it last succeeded.
-/

set_option autoImplicit false

namespace Relocation

/-- The least delay after a failure, in milliseconds. -/
def firstBackoff : Nat := 500

/-- The longest delay after a failure, in milliseconds. -/
def maxBackoff : Nat := 300000

/-- A series of ever longer delays, in milliseconds: how it starts, how long the delays get, and how
long after its start the series ends, if ever. -/
structure BackoffSeries where
  initial : Nat
  longest : Nat
  lifetime : Option Nat
  deriving DecidableEq, Repr

/-- The delays after failures of one config. -/
def errorBackoff : BackoffSeries where
  initial := firstBackoff
  longest := maxBackoff
  lifetime := none

/-- A library that draws delays: the next delay of a series after a number of earlier ones, in
milliseconds, or none at the end of the series. It draws at random; nothing is assumed of it. -/
abbrev DrawDelay := BackoffSeries → Nat → Option Nat

/-- The next delay after a failure. -/
def nextBackoff (draw : DrawDelay) (earlier : Nat) : Nat :=
  (draw errorBackoff earlier).getD maxBackoff

/-- What the controller remembers. -/
structure Controller where
  metrics : Metrics := {}
  backoffs : Table ObjectKey Nat := .empty
  deriving Inhabited

namespace Controller

/-- After a reconcile of a key: it is measured, and a success ends the series of delays. -/
def afterReconcile (c : Controller) (key : ObjectKey) (result : Except Error Outcome)
    (elapsed : Nat) : Controller where
  metrics := c.metrics.observe result elapsed
  backoffs := match result with
    | .ok _ => c.backoffs.erase key
    | .error _ => c.backoffs

/-- What is done about an error of a key, and what is noticed. -/
structure Policy where
  action : Action
  notices : List Notice
  controller : Controller

/-- What is done about an error of a key. -/
def onError (draw : DrawDelay) (c : Controller) (key : ObjectKey) (e : Error) : Policy :=
  match e.action with
  | .backoff =>
    let earlier := (c.backoffs.get? key).getD 0
    { action := .requeue (nextBackoff draw earlier)
      notices := [.willRetry key e]
      controller := { c with backoffs := c.backoffs.insert key (earlier + 1) } }
  | .after ms => { action := .requeue ms, notices := [], controller := c }
  | .never => { action := .awaitChange, notices := [.waitsForChange key e], controller := c }

end Controller

end Relocation
