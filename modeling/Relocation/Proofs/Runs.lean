import Relocation.Export
import Relocation.Proofs.Surroundings

/-!
Runs of programs in a world, part by part: what a run of one program after another is made of
(`run_bind`), and what a run under a write lock that comes to an end went through
(`withWriteLock_run_some`).
-/

set_option autoImplicit false

namespace Relocation

namespace Program

variable {σ α β : Type} {world : World σ} {s t : σ}

@[simp] theorem run_done (r : Except Error α) : (done r).run world s = (r, s) := rfl

theorem run_ask (q : Request) (next : q.Reply → Program α) :
    (ask q next).run world s = (next (world q s).1).run world (world q s).2 := rfl

@[simp] theorem run_pure (a : α) : (pure a : Program α).run world s = (.ok a, s) := rfl

@[simp] theorem run_fail (e : Error) : (fail e : Program α).run world s = (.error e, s) := rfl

@[simp] theorem run_store (call : StoreCall) :
    (store call).run world s = world (.store call) s := rfl

@[simp] theorem run_tryFile (call : FileCall) : (tryFile call).run world s =
    (.ok (world (.file call) s).1, (world (.file call) s).2) := rfl

@[simp] theorem run_file (call : FileCall) (wrap : Files.IoError → Error) :
    (file call wrap).run world s =
      ((world (.file call) s).1.mapError wrap, (world (.file call) s).2) := rfl

theorem run_file_eq_ok {call : FileCall} {wrap : Files.IoError → Error} {r : call.Result}
    (h : (file call wrap).run world s = (.ok r, t)) : world (.file call) s = (.ok r, t) := by
  rw [run_file] at h
  cases hworld : world (.file call) s with
  | mk reply s' =>
    rw [hworld] at h
    cases reply with
    | error e => cases h
    | ok r' =>
      cases h
      rfl

@[simp] theorem run_note (notice : Notice) :
    (note notice).run world s = (.ok (), (world (.note notice) s).2) := rfl

/-- A run of one program after another is a run of the one, and of the other unless an error ended
the first. -/
theorem run_bind (p : Program α) (f : α → Program β) :
    (p >>= f).run world s =
      match p.run world s with
      | (.ok a, t) => (f a).run world t
      | (.error e, t) => (.error e, t) := by
  induction p generalizing s with
  | done r => cases r <;> rfl
  | ask q next ih => exact ih (world q s).1

theorem run_bind_ok {p : Program α} {f : α → Program β} {a : α}
    (h : p.run world s = (.ok a, t)) : (p >>= f).run world s = (f a).run world t := by
  rw [run_bind, h]

theorem run_bind_eq_ok {p : Program α} {f : α → Program β} {b : β}
    (h : (p >>= f).run world s = (.ok b, t)) :
    ∃ a u, p.run world s = (.ok a, u) ∧ (f a).run world u = (.ok b, t) := by
  rw [run_bind] at h
  rcases hp : p.run world s with ⟨e | a, u⟩
  · simp [hp] at h
  · exact ⟨a, u, rfl, by simpa [hp] using h⟩

@[simp] theorem run_attempt (p : Program α) :
    p.attempt.run world s = (.ok (p.run world s).1, (p.run world s).2) := by
  induction p generalizing s with
  | done r => rfl
  | ask q next ih => exact ih (world q s).1

theorem Only.run_inv {kind : Request → Prop} {inv : σ → Prop} {p : Program α} (hp : p.Only kind)
    (hstep : ∀ {a q}, inv a → kind q → inv (world q a).2) (hs : inv s) :
    inv (p.run world s).2 := by
  induction p generalizing s with
  | done r => exact hs
  | ask q next ih =>
    rw [run_ask]
    exact ih _ (hp.2 _) (hstep hs hp.1)

/-- A program and the state after some requests of a run. -/
def after (world : World σ) : Nat → Program α → σ → Program α × σ
  | 0, p, s => (p, s)
  | _ + 1, .done r, s => (.done r, s)
  | n + 1, .ask q next, s => (next (world q s).1).after world n (world q s).2

end Program

open Program

variable {σ α : Type} {world : World σ} {s t : σ}

/-- What a run under the write lock of a directory went through when it came to a result of its
action: opening, locking, the action, and giving back. -/
theorem withWriteLock_run_some {dir : Path} {action : Program α} {a : α}
    (h : (withWriteLock dir action).run world s = (.ok (some a), t)) :
    ∃ inode s1 s2 s3, world (.file (.openLock (dir.join lockFileName))) s = (.ok inode, s1) ∧
      world (.file (.tryLock inode)) s1 = (.ok true, s2) ∧ action.run world s2 = (.ok a, s3) ∧
      t = (world (.file (.release inode)) s3).2 := by
  obtain ⟨taken, s2, htaken, h⟩ := run_bind_eq_ok h
  obtain ⟨inode, s1, hopen, htaken⟩ := run_bind_eq_ok htaken
  obtain ⟨free, s2', hlock, htaken⟩ := run_bind_eq_ok htaken
  have hopen := run_file_eq_ok hopen
  have hlock := run_file_eq_ok hlock
  cases free with
  | false =>
    obtain ⟨rfl, rfl⟩ : none = taken ∧ s2' = s2 := by simpa using htaken
    simp at h
  | true =>
    obtain ⟨rfl, rfl⟩ : some inode = taken ∧ s2' = s2 := by simpa using htaken
    obtain ⟨result, s3, haction, h⟩ := run_bind_eq_ok h
    obtain ⟨released, s4, hrelease, h⟩ := run_bind_eq_ok h
    simp only [run_attempt, Prod.mk.injEq, Except.ok.injEq] at haction
    have hreleased : (world (.file (.release inode)) s3).2 = s4 := congrArg Prod.snd hrelease
    cases result with
    | error e => simp at h
    | ok b =>
      obtain ⟨rfl, rfl⟩ : b = a ∧ s4 = t := by simpa using h
      exact ⟨inode, s1, s2', s3, hopen, hlock, Prod.ext haction.1 haction.2, hreleased.symm⟩

theorem tryWriteLock_run_of {dir : Path} {inode : Nat} {free : Bool} {s1 s2 : σ}
    (hopen : world (.file (.openLock (dir.join lockFileName))) s = (.ok inode, s1))
    (hlock : world (.file (.tryLock inode)) s1 = (.ok free, s2)) :
    (tryWriteLock dir).run world s = (.ok (if free then some inode else none), s2) := by
  have hopened : (Program.file (.openLock (dir.join lockFileName)) (.lock dir.text)).run world s =
      (.ok inode, s1) := by
    rw [run_file, hopen]
    rfl
  have hlocked : (Program.file (.tryLock inode) (.lock dir.text)).run world s1 =
      (.ok free, s2) := by
    rw [run_file, hlock]
    rfl
  exact (run_bind_ok hopened).trans (run_bind_ok hlocked)

theorem run_withWriteLock_untaken {dir : Path} {action : Program α} {r : Except Error (Option Nat)}
    (h : (tryWriteLock dir).run world s = (r, t)) (hr : ∀ inode, r ≠ .ok (some inode)) :
    (withWriteLock dir action).run world s = (r.map fun _ => none, t) := by
  rw [withWriteLock, run_bind, h]
  rcases r with e | _ | inode
  · rfl
  · rfl
  · exact absurd rfl (hr inode)

theorem run_withWriteLock_taken {dir : Path} {action : Program α} {inode : Nat}
    (h : (tryWriteLock dir).run world s = (.ok (some inode), t)) :
    (withWriteLock dir action).run world s = ((action.run world t).1.map some,
      (world (.file (.release inode)) (action.run world t).2).2) := by
  refine (run_bind_ok h).trans ?_
  show (action.attempt >>= _).run world t = _
  rw [run_bind, run_attempt]
  generalize action.run world t = ended
  obtain ⟨r, u⟩ := ended
  cases r with
  | ok a => rfl
  | error e => rfl

theorem withWriteLock_run_of {dir : Path} {action : Program α} {a : α} {inode : Nat}
    {s1 s2 s3 : σ} (hopen : world (.file (.openLock (dir.join lockFileName))) s = (.ok inode, s1))
    (hlock : world (.file (.tryLock inode)) s1 = (.ok true, s2))
    (haction : action.run world s2 = (.ok a, s3)) :
    (withWriteLock dir action).run world s =
      (.ok (some a), (world (.file (.release inode)) s3).2) := by
  have htaken : (tryWriteLock dir).run world s = (.ok (some inode), s2) :=
    tryWriteLock_run_of hopen hlock
  rw [run_withWriteLock_taken htaken, haction]
  rfl

end Relocation
