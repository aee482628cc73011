/-!
What a reconcile that did not fail asks for, and what the controller does about it.
-/

set_option autoImplicit false

namespace Relocation

/-- The wish for another run: none until something changes, one at once, or one after some
milliseconds. -/
inductive Outcome
  | settled
  | requeueNow
  | requeueAfter (milliseconds : Nat)
  deriving DecidableEq, Repr, Inhabited

/-- Whether the remaining steps of a reconcile are left out. -/
def Outcome.isRequeue (o : Outcome) : Bool := o != .settled

/-- What the controller does after a reconcile. -/
inductive Action
  | awaitChange
  | requeue (milliseconds : Nat)
  deriving DecidableEq, Repr, Inhabited

def Outcome.action : Outcome → Action
  | .settled => .awaitChange
  | .requeueNow => .requeue 0
  | .requeueAfter ms => .requeue ms

end Relocation
