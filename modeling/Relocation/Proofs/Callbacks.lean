import Relocation.Proofs.History
import Relocation.Scenario.Step

/-!
Calls of the controller. It is called to reconcile keys and to handle errors of keys, in any order,
and what it remembers after some calls is what each of them made of it, one after the other
(`Controller.Serves`). A scenario calls its controller in this way
(`Scenario.State.serves_controllerReconcile`, `Scenario.State.serves_errorPolicy`).
-/

set_option autoImplicit false

namespace Relocation

open Program

namespace Controller

/-- A call of the controller that has ended: a reconcile of a key, with the requests that it made,
how it ended and how many nanoseconds it took, or an error of a key that was handled. -/
inductive Call (σ : Type)
  | reconciled (key : ObjectKey) (events : List (Event σ)) (result : Except Error Outcome)
      (elapsed : Nat)
  | handled (key : ObjectKey) (e : Error)

def Call.key {σ : Type} : Call σ → ObjectKey
  | .reconciled key _ _ _ | .handled key _ => key

theorem Call.countP_concat {σ : Type} (kind : Call σ → Bool) (past : List (Call σ))
    (call : Call σ) :
    (past ++ [call]).countP kind = past.countP kind + if kind call then 1 else 0 := by
  rw [List.countP_append, List.countP_singleton]

section Calls

variable {σ : Type}

/-- What one call makes of what the controller remembers. A reconcile may find the world in any
state, and others may change that between any two of its requests; whatever delay is drawn. -/
inductive Takes (ctx : ReconcileContext) (others : σ → σ → Prop) (world : World σ)
    (c : Controller) : Call σ → Controller → Prop
  | reconcile {key : ObjectKey} {s t : σ} {events : List (Event σ)} {result : Except Error Outcome}
      (elapsed : Nat)
      (course : (reconcile ctx key).Course (recordingAmid others world fun _ _ => True) ([], s)
        result (events, t)) :
      Takes ctx others world c (.reconciled key events result elapsed)
        (c.afterReconcile key result elapsed)
  | handle (draw : DrawDelay) (key : ObjectKey) (e : Error) :
      Takes ctx others world c (.handled key e) (c.onError draw key e).controller

/-- What the controller remembers after some calls, one after the other. -/
inductive Serves (ctx : ReconcileContext) (others : σ → σ → Prop) (world : World σ)
    (start : Controller) : List (Call σ) → Controller → Prop
  | start : Serves ctx others world start [] start
  | next {past : List (Call σ)} {c d : Controller} {call : Call σ} :
      Serves ctx others world start past c → Takes ctx others world c call d →
      Serves ctx others world start (past ++ [call]) d

variable {ctx : ReconcileContext} {others : σ → σ → Prop} {world : World σ}
  {start c d : Controller} {past later : List (Call σ)} {call : Call σ}

theorem Takes.serves (h : Takes ctx others world c call d) :
    Serves ctx others world c [call] d := Serves.start.next h

theorem Serves.trans (h : Serves ctx others world start past c)
    (hlater : Serves ctx others world c later d) :
    Serves ctx others world start (past ++ later) d := by
  induction hlater with
  | start => rwa [List.append_nil]
  | next _ hcall ih =>
    rw [← List.append_assoc]
    exact ih.next hcall

theorem takes_run (key : ObjectKey) (elapsed : Nat) (s : σ) :
    Takes ctx Eq world c
      (.reconciled key ((reconcile ctx key).history world s) ((reconcile ctx key).run world s).1
        elapsed)
      (c.afterReconcile key ((reconcile ctx key).run world s).1 elapsed) :=
  .reconcile elapsed (course_history (fun _ => rfl) (reconcile ctx key) [] s)

end Calls

end Controller

namespace Scenario.State

open Controller

theorem controller_touch (s : State) (key : ObjectKey) (touch : Touch) :
    (s.touch key touch).controller = s.controller := by
  cases touch with
  | config | host =>
    unfold State.touch
    dsimp only
    split <;> rfl
  | removeHost | deleteConfig => rfl

theorem controller_fire (s : State) (call : StoreCall) :
    (s.fire call).2.controller = s.controller := by
  unfold fire
  split
  · rfl
  · dsimp only
    split
    · exact controller_touch _ _ _
    · rfl

theorem controller_askStore (s : State) (call : StoreCall) :
    (s.askStore call).2.controller = s.controller := by
  unfold askStore askApi
  split
  · split
    · rfl
    · dsimp only
      split <;> rfl
  · rfl

theorem controller_world (q : Request) (s : State) :
    (world q s).2.controller = s.controller := by
  cases q with
  | store call =>
    have hfire := controller_fire (s.logCall call) call
    unfold world
    dsimp only
    split
    · exact hfire
    · exact (controller_askStore _ _).trans hfire
  | file call => rfl
  | note notice => rfl

theorem controller_run {α : Type} (p : Program α) (s : State) :
    (p.run world s).2.controller = s.controller := by
  induction p generalizing s with
  | done r => rfl
  | ask q next ih => exact (ih _ _).trans (controller_world q s)

theorem controller_logNotices (notices : List Notice) (s : State) :
    (notices.foldl logNotice s).controller = s.controller := by
  induction notices generalizing s with
  | nil => rfl
  | cons notice rest ih => exact ih _

/-- When a scenario reconciles a key, its controller is called for the key, and called once more
when that ends in an error. -/
theorem serves_controllerReconcile (s : State) (key : ObjectKey) :
    Serves s.context Eq world s.controller
      (.reconciled key ((reconcile s.context key).history world s)
          ((reconcile s.context key).run world s).1 0 ::
        match ((reconcile s.context key).run world s).1 with
        | .ok _ => []
        | .error e => [.handled key e])
      (s.controllerReconcile key).2.controller := by
  have htakes : Serves s.context Eq world s.controller [_] _ := (takes_run key 0 s).serves
  have hcontroller := controller_run (reconcile s.context key) s
  unfold controllerReconcile play
  generalize (reconcile s.context key).run world s = ended at *
  obtain ⟨result, t⟩ := ended
  cases result with
  | ok outcome =>
    dsimp only at hcontroller ⊢
    rw [hcontroller]
    exact htakes
  | error e =>
    dsimp only at hcontroller ⊢
    rw [controller_logNotices, hcontroller]
    exact htakes.trans (Takes.handle t.draw key e).serves

/-- When a scenario handles an error some times over, its controller is called as often. -/
theorem serves_errorPolicy (s : State) (ctx : ReconcileContext) (key : ObjectKey) (e : Error)
    (times : Nat) :
    Serves ctx Eq world s.controller (List.replicate times (.handled key e))
      (s.errorPolicy key e times).2.controller := by
  induction times generalizing s with
  | zero => exact .start
  | succ times ih =>
    have hfirst : Serves ctx Eq world s.controller [.handled key e] _ :=
      (Takes.handle s.draw key e).serves
    have hlater := ih ((s.controller.onError s.draw key e).notices.foldl logNotice
      { s with controller := (s.controller.onError s.draw key e).controller })
    rw [controller_logNotices] at hlater
    rw [errorPolicy]
    split
    · rename_i hlast
      subst hlast
      rw [controller_logNotices]
      exact hfirst
    · exact hfirst.trans hlater

end Scenario.State

end Relocation
