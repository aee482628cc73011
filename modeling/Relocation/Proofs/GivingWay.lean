import Mathlib.Data.List.Basic
import Relocation.Proofs.History
import Relocation.Proofs.Requests
import Relocation.Reconcile

/-!
Programs that give way to one who holds a lock. As soon as an attempt on a lock is answered that
another holds it, such a program is bound to end in a result that says so, and it ends in none of
these otherwise (`Program.GivesWay`). A reconcile gives way: it comes to its end without an error
and asks for another attempt later, exactly when it met a lock that another held
(`reconcile_waits_iff`).
-/

set_option autoImplicit false

namespace Relocation

/-- Whether a request is an attempt on a lock. -/
def Request.TriesLock : Request → Prop
  | .file (.tryLock _) => True
  | _ => False

/-- Whether a reply says that another holds the lock that was tried. -/
def Request.Contended : (q : Request) → q.Reply → Prop
  | .file (.tryLock _), .ok free => free = false
  | _, _ => False

/-- Whether a request met a lock that another held. -/
def Event.Contended {σ : Type} (e : Event σ) : Prop := e.request.Contended e.reply

theorem Request.not_contended {q : Request} (h : ¬q.TriesLock) (reply : q.Reply) :
    ¬q.Contended reply := by
  cases q with
  | store call => exact id
  | note notice => exact id
  | file call =>
    cases call with
    | tryLock inode => exact absurd trivial h
    | _ => exact id

theorem Request.Hosting.not_triesLock {q : Request} (h : q.Hosting) : ¬q.TriesLock := by
  cases q with
  | store call => exact id
  | note notice => exact id
  | file call => exact h.elim

namespace Program

variable {α β : Type}

/-- Whether a program ends in one of some results, whatever it is answered. -/
def EndsIn (ends : α → Prop) : Program α → Prop
  | .done (.ok a) => ends a
  | .done (.error _) => False
  | .ask _ next => ∀ reply, (next reply).EndsIn ends

/-- Whether a program is bound to end in one of some results as soon as another is found to hold a
lock, and ends in none of them otherwise. -/
def GivesWay (ends : α → Prop) : Program α → Prop
  | .done (.ok a) => ¬ends a
  | .done (.error _) => True
  | .ask q next => ∀ reply, (q.Contended reply → (next reply).EndsIn ends) ∧
      (¬q.Contended reply → (next reply).GivesWay ends)

section Rules

variable {ends : α → Prop} {ends' : β → Prop} {p : Program α} {f : α → Program β}

theorem givesWay_pure {a : α} (h : ¬ends a) : (pure a : Program α).GivesWay ends := h

theorem givesWay_fail (e : Error) : (fail e : Program α).GivesWay ends := trivial

theorem EndsIn.bind (hp : p.EndsIn ends) (hf : ∀ a, ends a → (f a).EndsIn ends') :
    (p >>= f).EndsIn ends' := by
  induction p with
  | done r =>
    cases r with
    | ok a => exact hf a hp
    | error e => exact hp
  | ask q next ih =>
    intro reply
    exact ih reply (hp reply)

theorem GivesWay.bind (hp : p.GivesWay ends) (hbusy : ∀ a, ends a → (f a).EndsIn ends')
    (hfree : ∀ a, ¬ends a → (f a).GivesWay ends') : (p >>= f).GivesWay ends' := by
  induction p with
  | done r =>
    cases r with
    | ok a => exact hfree a hp
    | error e => trivial
  | ask q next ih =>
    intro reply
    obtain ⟨hcontended, hother⟩ := hp reply
    exact ⟨fun h => (hcontended h).bind hbusy, fun h => ih reply (hother h)⟩

theorem Only.bind_givesWay (hp : p.Only fun q => ¬q.TriesLock)
    (hf : ∀ a, (f a).GivesWay ends') : (p >>= f).GivesWay ends' := by
  induction p with
  | done r =>
    cases r with
    | ok a => exact hf a
    | error e => trivial
  | ask q next ih =>
    intro reply
    have hnot := Request.not_contended hp.1 reply
    exact ⟨fun h => absurd h hnot, fun _ => ih reply (hp.2 reply)⟩

end Rules

section Courses

variable {σ : Type} {others : σ → σ → Prop} {world : World σ}
  {rule : List (Event σ) → Event σ → Prop} {ends : α → Prop} {p : Program α}
  {a b : List (Event σ) × σ} {r : Except Error α}

theorem EndsIn.course (h : p.EndsIn ends)
    (hcourse : p.Course (recordingAmid others world rule) a r b) :
    (∃ new, b.1 = a.1 ++ new) ∧ ∃ x, r = .ok x ∧ ends x := by
  induction hcourse with
  | @done r s =>
    cases r with
    | ok x => exact ⟨⟨[], (List.append_nil _).symm⟩, x, rfl, h⟩
    | error e => exact h.elim
  | @ask q next s t u v reply r hothers hanswers _ ih =>
    obtain ⟨⟨new, hnew⟩, hends⟩ := ih (h reply)
    refine ⟨⟨⟨t.2, q, reply⟩ :: new, ?_⟩, hends⟩
    rw [hnew, hanswers.2, hothers.1, List.append_assoc, List.singleton_append]

/-- A program that gives way ends in one of its results exactly when one of the requests that it
came to make met a lock that another held. -/
theorem GivesWay.course (h : p.GivesWay ends)
    (hcourse : p.Course (recordingAmid others world rule) a r b) :
    ∃ new, b.1 = a.1 ++ new ∧ ((∃ x, r = .ok x ∧ ends x) ↔ ∃ e ∈ new, e.Contended) := by
  induction hcourse with
  | @done r s =>
    refine ⟨[], (List.append_nil _).symm, ?_⟩
    constructor
    · rintro ⟨x, rfl, hends⟩
      exact absurd hends h
    · rintro ⟨e, he, -⟩
      cases he
  | @ask q next s t u v reply r hothers hanswers hrest ih =>
    have happend {new : List (Event σ)} (hnew : v.1 = u.1 ++ new) :
        v.1 = s.1 ++ ⟨t.2, q, reply⟩ :: new := by
      rw [hnew, hanswers.2, hothers.1, List.append_assoc, List.singleton_append]
    obtain ⟨hbusy, hfree⟩ := h reply
    by_cases hcontended : q.Contended reply
    · obtain ⟨⟨new, hnew⟩, hends⟩ := (hbusy hcontended).course hrest
      refine ⟨_, happend hnew, ?_⟩
      exact ⟨fun _ => ⟨⟨t.2, q, reply⟩, List.mem_cons_self, hcontended⟩, fun _ => hends⟩
    · obtain ⟨new, hnew, hiff⟩ := ih (hfree hcontended)
      refine ⟨_, happend hnew, hiff.trans ?_⟩
      rw [List.exists_mem_cons_iff]
      exact (or_iff_right hcontended).symm

end Courses

end Program

open Program Request

section Reconciles

theorem tryWriteLock_givesWay (dir : Path) : (tryWriteLock dir).GivesWay (· = none) := by
  refine Only.bind_givesWay (only_file id) fun inode => ?_
  intro reply
  rcases reply with e | free
  · exact ⟨False.elim, fun _ => trivial⟩
  · cases free with
    | true => exact ⟨nofun, fun _ => nofun⟩
    | false => exact ⟨fun _ => rfl, fun hnot => absurd rfl hnot⟩

theorem withWriteLock_givesWay {α : Type} (dir : Path) {action : Program α}
    (h : action.Only fun q => ¬q.TriesLock) : (withWriteLock dir action).GivesWay (· = none) := by
  refine (tryWriteLock_givesWay dir).bind ?_ fun taken hfree => ?_
  · rintro _ rfl
    rfl
  · cases taken with
    | none => exact absurd rfl hfree
    | some inode =>
      refine h.attempt.bind_givesWay fun result => ?_
      refine Only.bind_givesWay (only_tryFile id) fun _ => ?_
      cases result with
      | ok a => exact givesWay_pure nofun
      | error e => exact givesWay_fail e

/-- The outcome that asks for another attempt because another holds the lock. -/
def Outcome.Waits (o : Outcome) : Prop := o = .requeueAfter lockRetryDelay

/-- The same, where it ends a reconcile before its export. -/
def LifecycleStep.Waits (step : LifecycleStep) : Prop := ∃ o : Outcome, o.Waits ∧ step = .halt o

theorem Outcome.Waits.isRequeue {o : Outcome} (h : o.Waits) : o.isRequeue = true := by
  rw [h]
  rfl

theorem Outcome.not_waits_settled : ¬Outcome.settled.Waits := nofun

theorem LifecycleStep.waits_halt {o : Outcome} : (LifecycleStep.halt o).Waits ↔ o.Waits := by
  constructor
  · rintro ⟨o', hwaits, heq⟩
    cases heq
    exact hwaits
  · intro hwaits
    exact ⟨o, hwaits, rfl⟩

theorem locked_givesWay {dir : Path} {action : Program Unit}
    (h : action.Only fun q => ¬q.TriesLock) (key : ObjectKey) :
    (withWriteLock dir action >>= lockedOutcome key).GivesWay Outcome.Waits := by
  refine (withWriteLock_givesWay dir h).bind ?_ fun result hfree => ?_
  · rintro _ rfl
    intro reply
    rfl
  · cases result with
    | none => exact absurd rfl hfree
    | some u => exact givesWay_pure Outcome.not_waits_settled

theorem exportConfig_givesWay (dataDir : Path) (c : ClusterConfig) :
    (exportConfig dataDir c).GivesWay Outcome.Waits := by
  refine Only.bind_givesWay (collect_only fun _ _ => id) fun artifacts => ?_
  refine Only.bind_givesWay (only_file id) fun _ => ?_
  apply locked_givesWay
  exact writeArtifacts_only (fun _ => id) (fun _ _ => id) artifacts

theorem removeExport_givesWay (dataDir : Path) (key : ObjectKey) :
    (removeExport dataDir key).GivesWay Outcome.Waits := by
  refine Only.bind_givesWay (only_tryFile id) fun found => ?_
  cases found with
  | error e =>
    dsimp only
    split
    · exact givesWay_pure Outcome.not_waits_settled
    · exact givesWay_fail _
  | ok u =>
    apply locked_givesWay
    refine .bind (only_note id) fun _ => .bind (only_file id) fun steps => ?_
    exact removeAll_only fun _ _ => id

theorem terminate_givesWay (dataDir : Path) (c : ClusterConfig) :
    (terminate dataDir c).GivesWay LifecycleStep.Waits := by
  have hsettled : ¬(LifecycleStep.halt .settled).Waits :=
    LifecycleStep.waits_halt.not.2 Outcome.not_waits_settled
  rw [terminate]
  split
  · exact givesWay_pure hsettled
  · refine (removeExport_givesWay dataDir c.key).bind ?_ fun removed hfree => ?_
    · intro removed hwaits
      rw [if_pos hwaits.isRequeue]
      exact LifecycleStep.waits_halt.2 hwaits
    · split
      · exact givesWay_pure (LifecycleStep.waits_halt.not.2 hfree)
      · have hhost := (releaseHost_only c).mono fun _ h => h.1.not_triesLock
        refine hhost.bind_givesWay fun _ => ?_
        refine Only.bind_givesWay (only_note id) fun _ => ?_
        refine Only.bind_givesWay (only_store id) fun _ => ?_
        exact givesWay_pure hsettled

theorem ensureFinalizer_givesWay (c : ClusterConfig) :
    (ensureFinalizer c).GivesWay LifecycleStep.Waits := by
  rw [ensureFinalizer]
  split
  · apply givesWay_pure
    rintro ⟨o, -, heq⟩
    cases heq
  · refine Only.bind_givesWay (only_note id) fun _ => ?_
    refine Only.bind_givesWay (only_store id) fun _ => ?_
    exact givesWay_pure (LifecycleStep.waits_halt.not.2 nofun)

theorem lifecycleStep_givesWay (dataDir : Path) (c : ClusterConfig) :
    (lifecycleStep dataDir c).GivesWay LifecycleStep.Waits := by
  rw [lifecycleStep]
  split
  · exact terminate_givesWay dataDir c
  · exact ensureFinalizer_givesWay c

theorem converge_givesWay (ctx : ReconcileContext) (key : ObjectKey) (c : ClusterConfig) :
    (converge ctx key c).GivesWay Outcome.Waits := by
  refine (exportConfig_givesWay ctx.dataDir c).bind ?_ fun exported hfree => ?_
  · intro exported hwaits
    rw [if_pos hwaits.isRequeue]
    exact hwaits
  · split
    · exact givesWay_pure hfree
    · have hhost := (syncHost_only ctx.serviceUrl key c).mono fun _ h => h.not_triesLock
      refine hhost.bind_givesWay fun _ => ?_
      refine Only.bind_givesWay (only_note id) fun _ => ?_
      exact givesWay_pure Outcome.not_waits_settled

theorem reconcile_givesWay (ctx : ReconcileContext) (key : ObjectKey) :
    (reconcile ctx key).GivesWay Outcome.Waits := by
  refine Only.bind_givesWay (only_note id) fun _ => ?_
  refine Only.bind_givesWay (only_store id) fun found => ?_
  cases found with
  | none => exact givesWay_pure Outcome.not_waits_settled
  | some c =>
    refine (lifecycleStep_givesWay ctx.dataDir c).bind ?_ fun step hfree => ?_
    · rintro _ ⟨o, hwaits, rfl⟩
      exact hwaits
    · cases step with
      | proceed => exact converge_givesWay ctx key c
      | halt o => exact givesWay_pure (LifecycleStep.waits_halt.not.1 hfree)

/-- A reconcile asks for another attempt later exactly when it met a lock that another held,
whatever the store answers, whichever operations on files fail and whatever others do meanwhile. -/
theorem reconcile_waits_iff {σ : Type} {others : σ → σ → Prop} {world : World σ}
    {rule : List (Event σ) → Event σ → Prop} {ctx : ReconcileContext} {key : ObjectKey} {s t : σ}
    {events : List (Event σ)} {result : Except Error Outcome}
    (hcourse : (reconcile ctx key).Course (recordingAmid others world rule) ([], s) result
      (events, t)) :
    result = .ok (.requeueAfter lockRetryDelay) ↔ ∃ e ∈ events, e.Contended := by
  obtain ⟨new, hnew, hiff⟩ := (reconcile_givesWay ctx key).course hcourse
  obtain rfl : events = new := hnew
  refine Iff.trans ?_ hiff
  constructor
  · intro hresult
    exact ⟨_, hresult, rfl⟩
  · rintro ⟨_, hresult, rfl⟩
    exact hresult

end Reconciles

end Relocation
