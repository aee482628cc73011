import Relocation.Proofs.History
import Relocation.Reconcile

/-!
Setbacks: replies that end what a program set out to do. A program that stops promptly shows it in
the history of every run (`Prompt.history`), and a reconcile stops promptly (`reconcile_prompt`).
-/

set_option autoImplicit false

namespace Relocation

open Files (IoError Removal)

/-- How a reply can end what a program set out to do. -/
inductive Setback
  | refused (e : Error)
  | failed
  | busy

/-- Whether a program may go on after an operation failed: nothing was there, or the lock was to be
given back anyway. -/
def tolerated : FileCall → IoError → Bool
  | .stat _, e | .read _, e | .remove _, e => e.isNotFound
  | .release _, _ => true
  | _, _ => false

/-- What a reply ends, if anything. -/
def setback : (q : Request) → q.Reply → Option Setback
  | .store _, .error e => some (.refused e)
  | .file call, .error e => if tolerated call e then none else some .failed
  | .file (.tryLock _), .ok free => if free then none else some .busy
  | _, _ => none

namespace Program

variable {σ α β : Type}

/-- Whether a program that meets a setback ends as it should from there. -/
def Prompt (ends : Setback → Program α → Prop) : Program α → Prop
  | .done _ => True
  | .ask q next => ∀ reply, match setback q reply with
    | none => (next reply).Prompt ends
    | some b => ends b (next reply)

variable {ends : Setback → Program α → Prop}

theorem Prompt.bind {ends' : Setback → Program β → Prop} {p : Program α} {f : α → Program β}
    (hp : p.Prompt ends) (hends : ∀ b q, ends b q → ends' b (q >>= f))
    (hf : ∀ a, (f a).Prompt ends') : (p >>= f).Prompt ends' := by
  induction p with
  | done r =>
    cases r with
    | ok a => exact hf a
    | error e => trivial
  | ask q next ih =>
    intro reply
    have hreply := hp reply
    cases hb : setback q reply with
    | none => exact ih reply (by simpa only [hb] using hreply)
    | some b => exact hends b _ (by simpa only [hb] using hreply)

theorem Prompt.attempt {ends' : Setback → Program (Except Error α) → Prop} {p : Program α}
    (hp : p.Prompt ends) (hends : ∀ b q, ends b q → ends' b q.attempt) :
    p.attempt.Prompt ends' := by
  induction p with
  | done r => trivial
  | ask q next ih =>
    intro reply
    have hreply := hp reply
    cases hb : setback q reply with
    | none => exact ih reply (by simpa only [hb] using hreply)
    | some b => exact hends b _ (by simpa only [hb] using hreply)

/-- Whether no reply to a request is a setback. -/
def Harmless (q : Request) : Prop := ∀ reply, setback q reply = none

theorem Only.harmless_history {world : World σ} {p : Program α} (hp : p.Only Harmless) {s : σ} :
    ∀ e ∈ p.history world s, setback e.request e.reply = none :=
  fun e he => hp.history s e he e.reply

/-- After a setback, the run of a prompt program is the run of an end as it should be. -/
theorem Prompt.history {world : World σ} {p : Program α} (hp : p.Prompt ends)
    (hends : ∀ b q, ends b q → q.Only Harmless) {s : σ}
    {before after : List (Event σ)} {e : Event σ}
    (hsplit : p.history world s = before ++ e :: after) {b : Setback}
    (hb : setback e.request e.reply = some b) :
    ∃ q t, ends b q ∧ after = q.history world t ∧ (p.run world s).1 = (q.run world t).1 := by
  induction p generalizing s before with
  | done r => simp [Program.history] at hsplit
  | ask q next ih =>
    have hreply := hp (world q s).1
    rw [Program.history] at hsplit
    rcases List.cons_eq_append_iff.1 hsplit with ⟨rfl, he⟩ | ⟨before, rfl, he⟩
    · obtain ⟨rfl, rfl⟩ := List.cons_eq_cons.1 he
      simp only [hb] at hreply
      exact ⟨_, _, hreply, rfl, rfl⟩
    · cases hnone : setback q (world q s).1 with
      | none => exact ih _ (by simpa only [hnone] using hreply) he
      | some b' =>
        have quiet := (hends b' _ (by simpa only [hnone] using hreply)).harmless_history e
          (he ▸ List.mem_append_right before List.mem_cons_self)
        simp [hb] at quiet

/-- How an action under a lock ends at a setback: at once, with an error. -/
def BreaksOff : Setback → Program α → Prop
  | .failed, q => ∃ e, q = .done (.error e)
  | _, _ => False

/-- How a program ends at a setback: with the error of a store call; with an error once a lock is
given back; and in its own way when another holds a lock. -/
def GivesUp (yields : Program α → Prop) : Setback → Program α → Prop
  | .refused e, q => q = .done (.error e)
  | .failed, q => (∃ e, q = .done (.error e)) ∨
      ∃ inode e, q = .ask (.file (.release inode)) fun _ => .done (.error e)
  | .busy, q => yields q

/-- How a program whose result tells of a wish for another run yields to who holds a lock. -/
def Yields (wish : Outcome → α) (q : Program α) : Prop :=
  ∃ notice, q = .ask (.note notice) fun _ => .done (.ok (wish (.requeueAfter lockRetryDelay)))

section Steps

variable {yields : Program β → Prop}

private theorem prompt_store {call : StoreCall} {f : call.Result → Program β}
    (hf : ∀ r, (f r).Prompt (GivesUp yields)) : (store call >>= f).Prompt (GivesUp yields)
  | .ok r => hf r
  | .error _ => rfl

private theorem prompt_note {ends : Setback → Program β → Prop} {notice : Notice}
    {f : Unit → Program β} (hf : (f ()).Prompt ends) : (note notice >>= f).Prompt ends :=
  fun _ => hf

private theorem setback_ok {call : FileCall} (hcall : ∀ inode, call ≠ .tryLock inode)
    (r : call.Result) : setback (.file call) (.ok r) = none := by
  cases call <;> first | rfl | exact absurd rfl (hcall _)

private theorem setback_error (call : FileCall) (e : IoError) :
    setback (.file call) (.error e) = if tolerated call e then none else some .failed := by
  cases call <;> rfl

private theorem prompt_tryFile {ends : Setback → Program β → Prop} {call : FileCall}
    {f : Except IoError call.Result → Program β} (hcall : ∀ inode, call ≠ .tryLock inode)
    (hok : ∀ r, (f (.ok r)).Prompt ends)
    (herror : ∀ e, if tolerated call e then (f (.error e)).Prompt ends
      else ends .failed (f (.error e))) :
    (tryFile call >>= f).Prompt ends := by
  intro reply
  cases reply with
  | ok r =>
    rw [setback_ok hcall]
    exact hok r
  | error e =>
    have he := herror e
    rw [setback_error]
    cases ht : tolerated call e with
    | true =>
      rw [if_pos ht] at he
      exact he
    | false =>
      rw [if_neg (by simp [ht])] at he
      exact he

private theorem prompt_file {ends : Setback → Program β → Prop} {call : FileCall}
    {wrap : IoError → Error} {f : call.Result → Program β}
    (hcall : ∀ inode, call ≠ .tryLock inode) (hok : ∀ r, (f r).Prompt ends)
    (herror : ∀ e, ends .failed (.done (.error e))) : (file call wrap >>= f).Prompt ends := by
  intro reply
  cases reply with
  | ok r =>
    rw [setback_ok hcall]
    exact hok r
  | error e =>
    rw [setback_error]
    cases tolerated call e with
    | true => trivial
    | false => exact herror (wrap e)

private theorem GivesUp.bind {yields' : Program α → Prop} {f : β → Program α}
    (hy : ∀ q, yields q → yields' (q >>= f)) (b : Setback) (q : Program β)
    (h : GivesUp yields b q) : GivesUp yields' b (q >>= f) := by
  cases b with
  | refused e =>
    obtain rfl : q = .done (.error e) := h
    rfl
  | failed =>
    rcases h with ⟨e, rfl⟩ | ⟨inode, e, rfl⟩
    · exact .inl ⟨e, rfl⟩
    · exact .inr ⟨inode, e, rfl⟩
  | busy => exact hy q h

end Steps

theorem prompt_withWriteLock {dir : Path} {action : Program α} (h : action.Prompt BreaksOff) :
    (withWriteLock dir action).Prompt (GivesUp (· = .done (.ok none))) := by
  unfold withWriteLock tryWriteLock
  rw [bind_def, bind_def, bind_assoc, ← bind_def]
  refine prompt_file (by simp) (fun inode => ?_) fun e => .inl ⟨e, rfl⟩
  intro reply
  cases reply with
  | error e => exact .inl ⟨_, rfl⟩
  | ok free =>
    cases free with
    | false => rfl
    | true =>
      have attempted : action.attempt.Prompt
          fun b q => b = .failed ∧ ∃ e, q = .done (.ok (.error e)) := by
        refine h.attempt fun b q hq => ?_
        cases b with
        | failed =>
          obtain ⟨e, rfl⟩ := hq
          exact ⟨rfl, e, rfl⟩
        | refused e => exact hq.elim
        | busy => exact hq.elim
      refine attempted.bind ?_ fun result => ?_
      · rintro b q ⟨rfl, e, rfl⟩
        exact .inr ⟨inode, e, rfl⟩
      · refine prompt_tryFile (by simp) (fun r => ?_) fun e => ?_
        · cases result <;> trivial
        · cases result <;> trivial

end Program

open Program

private theorem prompt_writeIfChanged {path : Path} {text : String}
    {f : Except IoError Unit → Program Unit} (hok : (f (.ok ())).Prompt BreaksOff)
    (herror : ∀ e, BreaksOff .failed (f (.error e))) :
    (writeIfChanged path text >>= f).Prompt BreaksOff := by
  have written : (tryFile (.write path text) >>= f).Prompt BreaksOff :=
    prompt_tryFile (by simp) (fun _ => hok) herror
  unfold writeIfChanged
  rw [bind_def, bind_def, bind_assoc, ← bind_def]
  refine prompt_tryFile (by simp) (fun old => ?_) fun e => ?_
  · by_cases hold : old = text
    · simp only [hold, if_true]
      exact hok
    · simp only [hold, if_false]
      exact written
  · cases hgone : e.isNotFound with
    | true =>
      simp only [tolerated, hgone, if_true]
      exact written
    | false =>
      simp only [tolerated, hgone, Bool.false_eq_true, if_false]
      exact herror e

theorem writeArtifacts_prompt (dir : Path) (artifacts : List (Artifact × String)) :
    (writeArtifacts dir artifacts).Prompt BreaksOff := by
  induction artifacts with
  | nil => trivial
  | cons artifact rest ih => exact prompt_writeIfChanged ih fun e => ⟨_, rfl⟩

theorem removeAll_prompt (steps : List Removal) : (removeAll steps).Prompt BreaksOff := by
  induction steps with
  | nil => trivial
  | cons step rest ih =>
    refine prompt_tryFile (by simp) (fun _ => ih) fun e => ?_
    cases hgone : e.isNotFound with
    | true => simpa only [tolerated, hgone, if_true] using ih
    | false => simpa only [tolerated, hgone, Bool.false_eq_true, if_false] using ⟨_, rfl⟩

theorem secretTexts_prompt (refs : List (Artifact × SecretReference)) :
    (secretTexts refs).Prompt (GivesUp fun _ => False) := by
  induction refs with
  | nil => trivial
  | cons ref rest ih =>
    obtain ⟨artifact, r⟩ := ref
    unfold secretTexts secretText
    rw [bind_def, bind_def, bind_assoc, ← bind_def]
    refine prompt_store fun found => ?_
    cases found with
    | none => trivial
    | some secret => exact ih.bind (GivesUp.bind fun _ => False.elim) fun _ => trivial

theorem lockedOutcome_prompt (key : ObjectKey) (result : Option Unit)
    {ends : Setback → Program Outcome → Prop} : (lockedOutcome key result).Prompt ends := by
  cases result with
  | none => exact fun _ => trivial
  | some u => trivial

theorem exportConfig_prompt (dataDir : Path) (c : ClusterConfig) :
    (exportConfig dataDir c).Prompt (GivesUp (Yields id)) := by
  have collected : (collect c).Prompt (GivesUp fun _ => False) := by
    unfold collect
    cases hd : Descriptor.ofConfig c .standard with
    | error e => trivial
    | ok descriptor =>
      exact (secretTexts_prompt _).bind (GivesUp.bind fun _ => False.elim) fun _ => trivial
  refine collected.bind (GivesUp.bind fun _ => False.elim) fun artifacts => ?_
  refine prompt_file (by simp) (fun _ => ?_) fun e => .inl ⟨e, rfl⟩
  refine (prompt_withWriteLock (writeArtifacts_prompt _ artifacts)).bind (GivesUp.bind ?_) fun _ =>
    lockedOutcome_prompt _ _
  rintro q rfl
  exact ⟨_, rfl⟩

theorem removeExport_prompt (dataDir : Path) (key : ObjectKey) :
    (removeExport dataDir key).Prompt (GivesUp (Yields id)) := by
  refine prompt_tryFile (by simp) (fun _ => ?_) fun e => ?_
  · have removed : (do
        Program.note (.filesRemoved key)
        removeTree (exportDirs dataDir key).lock).Prompt BreaksOff :=
      prompt_note (prompt_file (by simp) removeAll_prompt fun e => ⟨e, rfl⟩)
    refine (prompt_withWriteLock removed).bind (GivesUp.bind ?_) fun _ => lockedOutcome_prompt _ _
    rintro q rfl
    exact ⟨_, rfl⟩
  · cases hgone : e.isNotFound with
    | true => simp [tolerated, hgone, Prompt, pure_def]
    | false =>
      simp only [tolerated, hgone, Bool.false_eq_true, if_false]
      exact .inl ⟨_, rfl⟩

theorem setImage_prompt (r : HostReference) (url : String) :
    (setImage r url).Prompt (GivesUp fun _ => False) := by
  refine prompt_store fun found => ?_
  cases found with
  | none => trivial
  | some host =>
    dsimp only
    split
    · trivial
    · exact prompt_note (prompt_store fun _ => trivial)

theorem clearImage_prompt (r : HostReference) :
    (clearImage r).Prompt (GivesUp fun _ => False) := by
  refine prompt_store fun found => ?_
  cases found with
  | none => exact prompt_note trivial
  | some host =>
    dsimp only
    split
    · trivial
    · exact prompt_note (prompt_store fun _ => trivial)

theorem releaseHost_prompt (c : ClusterConfig) :
    (releaseHost c).Prompt (GivesUp fun _ => False) := by
  unfold releaseHost
  cases c.spec.bareMetalHostRef with
  | none => trivial
  | some r =>
    refine (clearImage_prompt r).bind (GivesUp.bind fun _ => False.elim) fun cleanup => ?_
    cases cleanup with
    | missing => exact fun _ => trivial
    | cleared => trivial
    | alreadyClear => trivial

theorem lifecycleStep_prompt (dataDir : Path) (c : ClusterConfig) :
    (lifecycleStep dataDir c).Prompt (GivesUp (Yields .halt)) := by
  unfold lifecycleStep terminate ensureFinalizer
  split
  · split
    · trivial
    · refine (removeExport_prompt _ _).bind (GivesUp.bind ?_) fun removed => ?_
      · rintro q ⟨notice, rfl⟩
        exact ⟨notice, rfl⟩
      · split
        · trivial
        · exact (releaseHost_prompt c).bind (GivesUp.bind fun _ => False.elim) fun _ =>
            prompt_note (prompt_store fun _ => trivial)
  · split
    · trivial
    · exact prompt_note (prompt_store fun _ => trivial)

theorem syncHost_prompt (serviceUrl : String) (key : ObjectKey) (c : ClusterConfig) :
    (syncHost serviceUrl key c).Prompt (GivesUp fun _ => False) := by
  unfold syncHost
  cases c.spec.bareMetalHostRef with
  | none => trivial
  | some r => exact (setImage_prompt r _).bind (GivesUp.bind fun _ => False.elim) fun _ => trivial

theorem converge_prompt (ctx : ReconcileContext) (key : ObjectKey) (c : ClusterConfig) :
    (converge ctx key c).Prompt (GivesUp (Yields id)) := by
  refine (exportConfig_prompt _ c).bind (GivesUp.bind ?_) fun exported => ?_
  · rintro q ⟨notice, rfl⟩
    exact ⟨notice, rfl⟩
  · split
    · trivial
    · exact (syncHost_prompt _ _ _).bind (GivesUp.bind fun _ => False.elim) fun _ =>
        prompt_note trivial

/-- A reconcile stops promptly at a setback. -/
theorem reconcile_prompt (ctx : ReconcileContext) (key : ObjectKey) :
    (reconcile ctx key).Prompt (GivesUp (Yields id)) := by
  refine prompt_note (prompt_store fun found => ?_)
  cases found with
  | none => trivial
  | some c =>
    refine (lifecycleStep_prompt _ c).bind (GivesUp.bind ?_) fun step => ?_
    · rintro q ⟨notice, rfl⟩
      exact ⟨notice, rfl⟩
    · cases step with
      | halt outcome => trivial
      | proceed => exact converge_prompt ctx key c

/-- What is left of a run after a setback: nothing after a refused store call, whose error is the
result; no more than giving the lock back after a failed operation on files; no more than notices,
and another attempt later, when another holds the lock. -/
def Aftermath {σ : Type} (result : Except Error Outcome) (after : List (Event σ)) :
    Setback → Prop
  | .refused e => after = [] ∧ result = .error e
  | .failed => (∀ g ∈ after, ∃ inode, g.request = .file (.release inode)) ∧ ∃ e, result = .error e
  | .busy => (∀ g ∈ after, ∃ notice, g.request = .note notice) ∧
      result = .ok (.requeueAfter lockRetryDelay)

private theorem harmless_of_givesUp {b : Setback} {q : Program Outcome}
    (h : GivesUp (Yields id) b q) : q.Only Harmless := by
  have release (inode : Nat) : Harmless (.file (.release inode)) := by
    rintro (e | u) <;> rfl
  cases b with
  | refused e =>
    obtain rfl : q = .done (.error e) := h
    trivial
  | failed =>
    rcases h with ⟨e, rfl⟩ | ⟨inode, e, rfl⟩
    · trivial
    · exact ⟨release inode, fun _ => trivial⟩
  | busy =>
    obtain ⟨notice, rfl⟩ := h
    exact ⟨fun _ => rfl, fun _ => trivial⟩

private theorem aftermath_of_givesUp {σ : Type} {world : World σ} {b : Setback}
    {q : Program Outcome} (h : GivesUp (Yields id) b q) (t : σ) :
    Aftermath (q.run world t).1 (q.history world t) b := by
  cases b with
  | refused e =>
    obtain rfl : q = .done (.error e) := h
    exact ⟨rfl, rfl⟩
  | failed =>
    rcases h with ⟨e, rfl⟩ | ⟨inode, e, rfl⟩
    · exact ⟨by simp [history], e, rfl⟩
    · exact ⟨by simp [history], e, rfl⟩
  | busy =>
    obtain ⟨notice, rfl⟩ := h
    exact ⟨by simp [history], rfl⟩

/-- After a setback a reconcile does no more than clear up behind itself. -/
theorem reconcile_aftermath {σ : Type} (world : World σ) (ctx : ReconcileContext) (key : ObjectKey)
    (s : σ) {before after : List (Event σ)} {e : Event σ}
    (hsplit : (reconcile ctx key).history world s = before ++ e :: after) {b : Setback}
    (hb : setback e.request e.reply = some b) :
    Aftermath ((reconcile ctx key).run world s).1 after b := by
  obtain ⟨q, t, hends, rfl, hresult⟩ :=
    (reconcile_prompt ctx key).history (fun b q => harmless_of_givesUp) hsplit hb
  rw [hresult]
  exact aftermath_of_givesUp hends t

end Relocation
