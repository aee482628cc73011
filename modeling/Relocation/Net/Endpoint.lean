import Relocation.Metrics

/-!
What the controller's two servers answer: one says that the controller is alive, the other hands out
its measurements.
-/

set_option autoImplicit false

namespace Relocation.Net

/-- An answer of a server. -/
structure Reply where
  status : Nat
  contentType : Option String := none
  body : String
  deriving DecidableEq, Repr

def Reply.nothingThere : Reply := { status := 404, body := "not found" }

/-- The paths at which the controller says that it is alive. -/
def alivePaths : List String := ["/healthz", "/livez", "/readyz"]

/-- The part of a request's target that names what is asked for. -/
def pathOf (target : String) : String := String.ofList (target.toList.takeWhile (· ≠ '?'))

def healthReply (target : String) : Reply :=
  if alivePaths.contains (pathOf target) then { status := 200, body := "ok" } else .nothingThere

def metricsReply (m : Metrics) (target : String) : Reply :=
  if pathOf target = "/metrics" then
    { status := 200, contentType := some "text/plain; version=0.0.4", body := m.text }
  else .nothingThere

end Relocation.Net
