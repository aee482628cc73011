import Relocation.Proofs.History
import Relocation.Proofs.Runs
import Relocation.Reconcile
import Relocation.Store.Memory

/-!
Reconciles of many keys beside each other, at most one of a key at a time, on a cluster kept in
memory and one tree of files. What the reconcile of every key keeps to, as long as those of the
others do as well, is true of whatever they come to together (`Compatible.reachable`).
-/

set_option autoImplicit false

namespace Relocation

open Files (FileSystem)
open Program Store

/-- How a request is answered by a cluster in memory and a tree of files; a store call may also be
refused for any reason. -/
inductive Answered : Memory × FileSystem → (q : Request) → q.Reply → Memory × FileSystem → Prop
  | store {m : Memory} {fs : FileSystem} (call : StoreCall) :
      Answered (m, fs) (.store call) (m.answer call).1 ((m.answer call).2, fs)
  | refused {s : Memory × FileSystem} (call : StoreCall) (e : Error) :
      Answered s (.store call) (.error e) s
  | file {m : Memory} {fs : FileSystem} (call : FileCall) :
      Answered (m, fs) (.file call) (fs.answer call).1 (m, (fs.answer call).2)
  | note {s : Memory × FileSystem} (notice : Notice) : Answered s (.note notice) () s

theorem answered_besideFiles (q : Request) (world : Memory × FileSystem) :
    Answered world q (besideFiles Memory.answer q world).1
      (besideFiles Memory.answer q world).2 := by
  cases q with
  | store call => exact .store call
  | file call => exact .file call
  | note notice => exact .note notice

/-- A cluster, a tree of files, and how far the reconcile of each key has come. -/
structure Pool where
  world : Memory × FileSystem
  running : ObjectKey → Option (Program Outcome)

/-- The pool with the reconcile of a key as far as given. -/
def Pool.set (s : Pool) (world : Memory × FileSystem) (k : ObjectKey)
    (p : Option (Program Outcome)) : Pool where
  world := world
  running l := if l = k then p else s.running l

/-- The work for a stored config, when a deletion never goes on to the export and what is ready for
the export is what our finalizer guards. -/
theorem keeps_handled {σ : Type} {w : Surroundings σ} {ctx : ReconcileContext} {k : ObjectKey}
    {c : ClusterConfig} {s : σ} {ready : σ → Prop}
    (hterminate : (terminate ctx.dataDir c).Keeps w (fun result _ => result ≠ .ok .proceed) s)
    (hensure : (ensureFinalizer c).Keeps w (fun result t => result = .ok .proceed → ready t) s)
    (hconverge : ∀ t, ready t → (converge ctx k c).Keeps w (fun _ _ => True) t) :
    (lifecycleStep ctx.dataDir c >>= fun
      | .halt outcome => return outcome
      | .proceed => converge ctx k c).Keeps w (fun _ _ => True) s := by
  apply keeps_bind.2
  unfold lifecycleStep
  split
  · refine hterminate.mono ?_
    rintro (e | step) t hhalt
    · trivial
    · cases step with
      | halt outcome => trivial
      | proceed => exact absurd rfl hhalt
  · refine hensure.mono ?_
    rintro (e | step) t hproceed
    · trivial
    · cases step with
      | halt outcome => trivial
      | proceed => exact hconverge t (hproceed rfl)

namespace Pool

variable {others : Memory × FileSystem → Memory × FileSystem → Prop} {ctx : ReconcileContext}
  {fs : FileSystem} {s t : Pool} {k : ObjectKey} {p : Program Outcome}

theorem set_set (world world' : Memory × FileSystem) (p p' : Option (Program Outcome)) :
    (s.set world k p).set world' k p' = s.set world' k p' := by
  simp only [set, mk.injEq, true_and]
  funext l
  split <;> rfl

theorem set_self (hp : s.running k = some p) : s.set s.world k (some p) = s := by
  obtain ⟨world, running⟩ := s
  simp only [set, mk.injEq, true_and]
  funext l
  split
  · simp_all
  · rfl

def idle (world : Memory × FileSystem) : Pool := ⟨world, fun _ => none⟩

theorem set_idle (world world' : Memory × FileSystem) :
    (idle world).set world' k none = idle world' := by
  simp [set, idle]

/-- What can happen next in a pool when others change the world as they may. -/
inductive StepAmid (others : Memory × FileSystem → Memory × FileSystem → Prop)
    (ctx : ReconcileContext) : Pool → Pool → Prop
  | start {s : Pool} {k : ObjectKey} : s.running k = none →
      StepAmid others ctx s (s.set s.world k (some (reconcile ctx k)))
  | request {s : Pool} {k : ObjectKey} {q : Request} {next : q.Reply → Program Outcome}
      {reply : q.Reply} {world : Memory × FileSystem} :
      s.running k = some (.ask q next) → Answered s.world q reply world →
      StepAmid others ctx s (s.set world k (some (next reply)))
  | finish {s : Pool} {k : ObjectKey} {r : Except Error Outcome} :
      s.running k = some (.done r) → StepAmid others ctx s (s.set s.world k none)
  | others {s : Pool} {world : Memory × FileSystem} : others s.world world →
      StepAmid others ctx s { s with world := world }

/-- The states that a pool comes to from an empty cluster. -/
inductive ReachableAmid (others : Memory × FileSystem → Memory × FileSystem → Prop)
    (ctx : ReconcileContext) (fs : FileSystem) : Pool → Prop
  | init : ReachableAmid others ctx fs (idle ({}, fs))
  | step {s t : Pool} : ReachableAmid others ctx fs s → StepAmid others ctx s t →
      ReachableAmid others ctx fs t

theorem ReachableAmid.after (h : ReachableAmid others ctx fs s) (hp : s.running k = some p)
    (n : Nat) : ReachableAmid others ctx fs
      (s.set (p.after (besideFiles Memory.answer) n s.world).2 k
        (some (p.after (besideFiles Memory.answer) n s.world).1)) := by
  induction n generalizing s p with
  | zero => rwa [Program.after, set_self hp]
  | succ n ih =>
    cases p with
    | done r => rwa [Program.after, set_self hp]
    | ask q next =>
      have later := ih (h.step (.request hp (answered_besideFiles q s.world))) (if_pos rfl)
      rwa [set_set] at later

theorem ReachableAmid.run (h : ReachableAmid others ctx fs s) (hp : s.running k = some p) :
    ReachableAmid others ctx fs (s.set (p.run (besideFiles Memory.answer) s.world).2 k none) := by
  -- The requests are made one by one, each against the world that the last one left.
  induction p generalizing s with
  | done r => exact h.step (.finish hp)
  | ask q next ih =>
    have later := ih _ (h.step (.request hp (answered_besideFiles q s.world))) (if_pos rfl)
    rwa [set_set] at later

theorem ReachableAmid.reconcile {world : Memory × FileSystem}
    (h : ReachableAmid others ctx fs (idle world)) (k : ObjectKey) :
    ReachableAmid others ctx fs
      (idle ((Relocation.reconcile ctx k).run (besideFiles Memory.answer) world).2) := by
  have hrun := (h.step (.start (k := k) rfl)).run (if_pos rfl)
  rwa [set_set, set_idle] at hrun

theorem ReachableAmid.idle_others {world world' : Memory × FileSystem}
    (h : ReachableAmid others ctx fs (idle world)) (hothers : others world world') :
    ReachableAmid others ctx fs (idle world') := h.step (.others hothers)

/-- Surroundings in which the reconciles of different keys get along with each other and with
others: whatever one of them does keeps the world sound and is nothing that another has to mind. -/
structure Compatible (others : Memory × FileSystem → Memory × FileSystem → Prop)
    (ctx : ReconcileContext) (w : ObjectKey → Surroundings (Memory × FileSystem))
    (sound : Memory × FileSystem → Prop) : Prop where
  refl : ∀ k s, (w k).others s s
  trans : ∀ {k s t u}, (w k).others s t → (w k).others t u → (w k).others s u
  answers : ∀ {k s q reply t}, Answered s q reply t → (w k).answers s q reply t
  allowed : ∀ {k s q reply t}, sound s → (w k).allowed s q reply t →
    sound t ∧ ∀ l, l ≠ k → (w l).others s t
  others : ∀ {s t}, sound s → others s t → sound t ∧ ∀ k, (w k).others s t
  starts : ∀ {s} k, sound s → (Relocation.reconcile ctx k).Keeps (w k) (fun _ _ => True) s

/-- The world of a pool is sound, and every reconcile that is under way will keep it so. -/
structure Inv (w : ObjectKey → Surroundings (Memory × FileSystem))
    (sound : Memory × FileSystem → Prop) (s : Pool) : Prop where
  world : sound s.world
  running : ∀ k p, s.running k = some p → p.Keeps (w k) (fun _ _ => True) s.world

section Compatible

variable {w : ObjectKey → Surroundings (Memory × FileSystem)} {sound : Memory × FileSystem → Prop}
  {world : Memory × FileSystem}

private theorem Compatible.onward (h : Compatible others ctx w sound) (hs : s.Inv w sound)
    (hothers : (w k).others s.world world) (hp : s.running k = some p) :
    p.Keeps (w k) (fun _ _ => True) world :=
  (hs.running k p hp).of_others h.trans (fun _ _ => trivial) hothers

private theorem Compatible.set (h : Compatible others ctx w sound) (hs : s.Inv w sound)
    {p : Option (Program Outcome)} (hworld : sound world)
    (hp : ∀ q, p = some q → q.Keeps (w k) (fun _ _ => True) world)
    (hothers : ∀ l, l ≠ k → (w l).others s.world world) : (s.set world k p).Inv w sound where
  world := hworld
  running l q hq := by
    by_cases hl : l = k
    · subst hl
      exact hp q (by simpa [Pool.set] using hq)
    · exact h.onward hs (hothers l hl) (by simpa [Pool.set, hl] using hq)

theorem Compatible.step (h : Compatible others ctx w sound) (hs : s.Inv w sound)
    (hstep : StepAmid others ctx s t) : t.Inv w sound := by
  cases hstep with
  | @start k hidle =>
    refine h.set hs hs.world ?_ fun l _ => h.refl l s.world
    rintro q ⟨⟩
    exact h.starts k hs.world
  | @request k q next reply world hrunning hanswer =>
    obtain ⟨hallowed, hnext⟩ :=
      hs.running k _ hrunning s.world (h.refl k s.world) reply world (h.answers hanswer)
    obtain ⟨hworld, hothers⟩ := h.allowed hs.world hallowed
    refine h.set hs hworld ?_ hothers
    rintro q ⟨⟩
    exact hnext
  | @finish k r hrunning => exact h.set hs hs.world nofun fun l _ => h.refl l s.world
  | others hmeddled =>
    obtain ⟨hworld, hothers⟩ := h.others hs.world hmeddled
    exact ⟨hworld, fun k p hp => h.onward hs (hothers k) hp⟩

/-- The world is sound in every state that a pool comes to. -/
theorem Compatible.reachable (h : Compatible others ctx w sound) (hinit : sound ({}, fs))
    (hreach : ReachableAmid others ctx fs s) : sound s.world := by
  suffices hs : s.Inv w sound from hs.world
  induction hreach with
  | init => exact ⟨hinit, nofun⟩
  | step _ hstep ih => exact h.step ih hstep

end Compatible

end Pool

end Relocation
