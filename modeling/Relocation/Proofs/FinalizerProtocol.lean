import Relocation.Proofs.Files.Removal
import Relocation.Proofs.Requests
import Relocation.Proofs.Runs
import Relocation.Proofs.Setbacks

/-!
The finalizer protocol: what a reconcile does rests on what it has done before. Whatever a store
answers and whatever tree of files it finds, a reconcile builds nothing up unless it has read a
living config that our finalizer guards, it puts the finalizer on a config and does nothing else, it
gives a config free only when its export is gone and its host boots no image any more, and it stops
at the first setback (`reconcile_protocol`).
-/

set_option autoImplicit false

namespace Relocation

open Files (FileSystem IoError Removal)
open Program

variable {σ τ : Type}

/-- Whether a history shows that a config was read. -/
def ReadIn (key : ObjectKey) (c : ClusterConfig) (past : List (Event σ)) : Prop :=
  ∃ s, ⟨s, .store (.getConfig key), .ok (some c)⟩ ∈ past

/-- Whether a history shows that a host boots no image: it does not exist, it has none, or a patch
that clears its image was accepted. -/
def HostFreedIn (host : ObjectKey) (past : List (Event σ)) : Prop :=
  (∃ s, ⟨s, .store (.getHost host), .ok none⟩ ∈ past) ∨
    (∃ s h, ⟨s, .store (.getHost host), .ok (some h)⟩ ∈ past ∧ h.spec.image = none) ∨
    ∃ s version patch, ⟨s, .store (.patchHost host version patch), .ok ()⟩ ∈ past ∧
      patch.image = .clear

/-- What has to be true before our finalizer is taken away from a config. -/
structure Releasable (dataDir : Path) (key : ObjectKey) (c : ClusterConfig)
    (past : List (Event (τ × FileSystem))) (fs : FileSystem) : Prop where
  read : ReadIn key c past
  deleting : c.metadata.isDeleting = true
  guarded : c.hasFinalizer = true
  exportGone : fs.stat (exportDirs dataDir c.key).lock = .error .notFound
  hostFreed : ∀ r, c.spec.bareMetalHostRef = some r → HostFreedIn r.key past

/-- What a step of a reconcile rests on: the steps before it, and the files as they are. -/
structure Lawful (dataDir : Path) (key : ObjectKey) (past : List (Event (τ × FileSystem)))
    (e : Event (τ × FileSystem)) : Prop where
  reads : e.request.ReadsConfig →
    e.request = .store (.getConfig key) ∧ ∀ g ∈ past, ¬g.request.ReadsConfig
  provides : e.request.Provides →
    ∃ c, ReadIn key c past ∧ c.metadata.isDeleting = false ∧ c.hasFinalizer = true
  guards : e.request.Guards → ∀ g ∈ past, ¬g.request.Touches
  touches : e.request.Touches → ∀ g ∈ past, ¬g.request.Guards
  releases : ∀ k version finalizers, e.request = .store (.patchFinalizers k version finalizers) →
    ourFinalizer ∉ finalizers →
    ∃ c, k = c.key ∧ Releasable dataDir key c past e.state.2

/-- The protocol that a reconcile follows. -/
structure FinalizerProtocol (dataDir : Path) (key : ObjectKey)
    (history : List (Event (τ × FileSystem))) (result : Except Error Outcome) : Prop where
  lawful : ∀ before e after, history = before ++ e :: after → Lawful dataDir key before e
  stops : ∀ before e after b, history = before ++ e :: after →
    setback e.request e.reply = some b → Aftermath result after b

section Removal

variable {store : StoreBehaviour τ} {t t' : τ} {fs fs' : FileSystem}

private theorem removeAll_run_cons {step : Removal} {rest : List Removal}
    (h : (removeAll (step :: rest)).run (besideFiles store) (t, fs) = (.ok (), t', fs')) :
    ∃ r after, (r = .ok () ∨ r = .error .notFound) ∧ fs.answer (.remove step) = (r, after) ∧
      (removeAll rest).run (besideFiles store) (t, after) = (.ok (), t', fs') := by
  refine ⟨(fs.answer (.remove step)).1, (fs.answer (.remove step)).2, ?_⟩
  obtain ⟨reply, u, hanswer, hrest⟩ := run_bind_eq_ok h
  obtain ⟨hreply, rfl⟩ := Prod.ext_iff.1 hanswer
  obtain rfl := Except.ok.inj hreply
  cases hr : (fs.answer (.remove step)).1 with
  | ok u =>
    simp only [hr] at hrest
    exact ⟨.inl rfl, Prod.ext hr rfl, hrest⟩
  | error e =>
    simp only [hr] at hrest
    cases hgone : e.isNotFound with
    | true =>
      obtain rfl : e = .notFound := by simpa [IoError.isNotFound] using hgone
      exact ⟨.inr rfl, Prod.ext hr rfl, hrest⟩
    | false => simp [hgone] at hrest

private theorem removeAll_run {p : Path} {last : Removal}
    (hlast : last = .removeDirPath p ∨ last = .unlinkPath p) {steps : List Removal}
    (h : (removeAll (steps ++ [last])).run (besideFiles store) (t, fs) = (.ok (), t', fs')) :
    fs'.stat p = .error .notFound := by
  induction steps generalizing fs with
  | nil =>
    obtain ⟨r, after, hr, hanswer, hrest⟩ := removeAll_run_cons h
    obtain ⟨rfl, rfl⟩ : t = t' ∧ after = fs' := by simpa [removeAll] using hrest
    exact FileSystem.stat_of_removed hlast hr hanswer
  | cons step rest ih =>
    obtain ⟨r, after, -, -, hrest⟩ := removeAll_run_cons h
    exact ih hrest

private theorem removeTree_run {dir : Path}
    (h : (removeTree dir).run (besideFiles store) (t, fs) = (.ok (), t', fs')) :
    fs'.stat dir = .error .notFound := by
  obtain ⟨steps, u, hplan, hsteps⟩ := run_bind_eq_ok h
  obtain ⟨hplan, rfl⟩ := Prod.ext_iff.1 (run_file_eq_ok hplan)
  obtain ⟨before, last, rfl, hlast⟩ := FileSystem.planRemoval_last hplan
  exact removeAll_run hlast hsteps

private theorem removeExport_run {dataDir : Path} {key : ObjectKey}
    (h : (removeExport dataDir key).run (besideFiles store) (t, fs) = (.ok .settled, t', fs')) :
    fs'.stat (exportDirs dataDir key).lock = .error .notFound := by
  obtain ⟨found, u, hstat, h⟩ := run_bind_eq_ok h
  obtain ⟨hfound, hu⟩ := Prod.ext_iff.1 hstat
  obtain rfl : (t, fs) = u := hu
  obtain rfl : fs.stat (exportDirs dataDir key).lock = found := Except.ok.inj hfound
  cases hr : fs.stat (exportDirs dataDir key).lock with
  | error e =>
    simp only [hr] at h
    cases hgone : e.isNotFound with
    | true =>
      obtain rfl : e = .notFound := by simpa [IoError.isNotFound] using hgone
      obtain ⟨rfl, rfl⟩ : t = t' ∧ fs = fs' := by simpa [hgone] using h
      exact hr
    | false => simp [hgone] at h
  | ok u =>
    simp only [hr] at h
    obtain ⟨removed, s2, hremoved, h⟩ := run_bind_eq_ok h
    cases removed with
    | none => simp [lockedOutcome, run_bind] at h
    | some u =>
      obtain rfl : s2 = (t', fs') := by simpa [lockedOutcome] using h
      obtain ⟨inode, s3, s4, ⟨t5, fs5⟩, -, -, haction, hreleased⟩ := withWriteLock_run_some hremoved
      obtain ⟨u, s6, hnote, hremove⟩ := run_bind_eq_ok haction
      obtain rfl : fs' = fs5.release inode := congrArg Prod.snd hreleased
      exact FileSystem.stat_release.trans (removeTree_run hremove)

end Removal

section Steps

variable {dataDir : Path} {key : ObjectKey} {c : ClusterConfig}
  {past : List (Event (τ × FileSystem))} {e : Event (τ × FileSystem)} {store : StoreBehaviour τ}
  {s : τ × FileSystem}

/-- What a reconcile carries along once it has read a config that our finalizer guards. -/
private structure Known (key : ObjectKey) (c : ClusterConfig)
    (past : List (Event (τ × FileSystem))) : Prop where
  read : ReadIn key c past
  unguarded : ∀ g ∈ past, ¬g.request.Guards

private theorem known_append (h : Known key c past) (he : ¬e.request.Guards) :
    Known key c (past ++ [e]) := by
  obtain ⟨s, hs⟩ := h.read
  refine ⟨⟨s, List.mem_append_left _ hs⟩, fun g hg => ?_⟩
  rcases List.mem_append.1 hg with hg | hg
  · exact h.unguarded g hg
  · rwa [List.mem_singleton.1 hg]

private theorem lawful_of_working (hw : e.request.Working) (h : Known key c past)
    (hp : e.request.Provides → c.metadata.isDeleting = false ∧ c.hasFinalizer = true) :
    Lawful dataDir key past e where
  reads hr := absurd hr hw.reads
  provides he := ⟨c, h.read, hp he⟩
  guards hg := absurd hg hw.guards
  touches _ := h.unguarded
  releases k version finalizers hq hf := absurd (by rw [hq]; exact hf) hw.releases

private theorem lawful_only {α : Type} {p : Program α} {kind : Request → Prop}
    (hp : p.Only kind) (hkind : ∀ q, kind q → q.Working)
    (hprovides : ∀ q, kind q → q.Provides →
      c.metadata.isDeleting = false ∧ c.hasFinalizer = true)
    (h : Known key c past) :
    p.Keeps (recording (besideFiles store) (Lawful dataDir key)) (fun _ a => Known key c a.1)
      (past, s) := by
  refine hp.keeps h (fun hinv heq => heq ▸ hinv) ?_
  rintro ⟨past, s⟩ q reply ⟨past', s'⟩ hinv hq ⟨-, rfl⟩
  exact ⟨lawful_of_working (hkind q hq) hinv (hprovides q hq),
    known_append hinv (hkind q hq).guards⟩

private theorem hostFreedIn_append {host : ObjectKey} (h : HostFreedIn host past)
    (e : Event (τ × FileSystem)) : HostFreedIn host (past ++ [e]) := by
  rcases h with ⟨s, hs⟩ | ⟨s, found, hs, himage⟩ | ⟨s, version, patch, hs, himage⟩
  · exact .inl ⟨s, List.mem_append_left _ hs⟩
  · exact .inr (.inl ⟨s, found, List.mem_append_left _ hs, himage⟩)
  · exact .inr (.inr ⟨s, version, patch, List.mem_append_left _ hs, himage⟩)

private theorem lawful_hosting {α : Type} {q : Request} {next : q.Reply → Program α}
    {post : Except Error α → List (Event (τ × FileSystem)) × τ × FileSystem → Prop}
    {t : τ} {fs : FileSystem} (h : Known key c past) (hq : q.Hosting) (hp : ¬q.Provides)
    (hnext : ∀ reply u, Known key c (past ++ [⟨(t, fs), q, reply⟩]) →
      (next reply).Keeps (recording (besideFiles store) (Lawful dataDir key)) post
        (past ++ [⟨(t, fs), q, reply⟩], u, fs)) :
    (ask q next).Keeps (recording (besideFiles store) (Lawful dataDir key)) post
      (past, t, fs) := by
  refine keeps_ask fun reply s hworld => ⟨lawful_of_working hq.working h fun he => absurd he hp, ?_⟩
  obtain rfl : s.2 = fs := by
    cases q with
    | store call => exact (congrArg (fun a => a.2.2) hworld).symm
    | file call => exact hq.elim
    | note notice => exact (congrArg (fun a => a.2.2) hworld).symm
  exact hnext reply s.1 (known_append h hq.working.guards)

private theorem lawful_clearImage {t : τ} {fs : FileSystem} (h : Known key c past)
    {r : HostReference} :
    (clearImage r).Keeps (recording (besideFiles store) (Lawful dataDir key))
      (fun result a => Known key c a.1 ∧ a.2.2 = fs ∧
        ∀ cleanup, result = .ok cleanup → HostFreedIn r.key a.1) (past, t, fs) := by
  refine lawful_hosting h trivial id fun found u known => ?_
  cases found with
  | error e => exact ⟨known, rfl, by simp⟩
  | ok found =>
    cases found with
    | none =>
      refine lawful_hosting known trivial id fun _ u known => ⟨known, rfl, fun _ _ => ?_⟩
      exact .inl ⟨(t, fs), by simp⟩
    | some host =>
      by_cases himage : host.spec.image = none
      · have clear : host.spec.image.isNone = true := by simp [himage]
        simp only [bind_def, Program.bind, clear, if_true]
        exact ⟨known, rfl, fun _ _ => .inr (.inl ⟨(t, fs), host, by simp, himage⟩)⟩
      · have set : ¬host.spec.image.isNone = true := by simp [himage]
        simp only [bind_def, Program.bind, set]
        refine lawful_hosting known trivial id fun _ u known => ?_
        refine lawful_hosting known trivial (by simp [Request.Provides]) fun patched u' known => ?_
        cases patched with
        | error e => exact ⟨known, rfl, by simp⟩
        | ok _ =>
          refine ⟨known, rfl, fun _ _ => .inr (.inr ?_)⟩
          exact ⟨(u, fs), _, _, List.mem_concat_self, rfl⟩

private theorem lawful_releaseHost {t : τ} {fs : FileSystem} (h : Known key c past) :
    (releaseHost c).Keeps (recording (besideFiles store) (Lawful dataDir key))
      (fun result a => Known key c a.1 ∧ a.2.2 = fs ∧
        (result = .ok () → ∀ r, c.spec.bareMetalHostRef = some r → HostFreedIn r.key a.1))
      (past, t, fs) := by
  unfold releaseHost
  cases hc : c.spec.bareMetalHostRef with
  | none => exact ⟨h, rfl, by simp⟩
  | some r =>
    refine keeps_bind.2 ((lawful_clearImage h).mono ?_)
    rintro (e | cleanup) ⟨past', u, fs'⟩ ⟨known, rfl, freed⟩
    · exact ⟨known, rfl, by simp⟩
    · have hfreed := freed cleanup rfl
      cases cleanup with
      | missing =>
        refine lawful_hosting known trivial id fun _ u known => ⟨known, rfl, fun _ r' hr => ?_⟩
        obtain rfl := Option.some.inj hr
        exact hostFreedIn_append hfreed _
      | cleared => exact ⟨known, rfl, by simpa using hfreed⟩
      | alreadyClear => exact ⟨known, rfl, by simpa using hfreed⟩

private theorem lawful_terminate {t : τ} {fs : FileSystem} (h : Known key c past)
    (hdeleting : c.metadata.isDeleting = true) :
    (terminate dataDir c).Keeps (recording (besideFiles store) (Lawful dataDir key))
      (fun result _ => result ≠ .ok .proceed) (past, t, fs) := by
  unfold terminate
  cases hguarded : c.hasFinalizer with
  | false => exact fun h => nomatch h
  | true =>
    have removing : (removeExport dataDir c.key).Keeps
        (recording (besideFiles store) (Lawful dataDir key)) (fun _ a => Known key c a.1)
        (past, t, fs) :=
      lawful_only (removeExport_only dataDir c.key) (fun _ hq => hq.working)
        (fun _ hq hp => absurd hp hq.not_provides) h
    refine keeps_bind.2 (removing.with_run.mono ?_)
    rintro (e | removed) ⟨past1, t1, fs1⟩ ⟨known, hrun⟩
    · exact fun h => nomatch h
    · by_cases hrequeue : removed.isRequeue = true
      · simp only [Then, hrequeue, if_true]
        exact fun h => nomatch h
      · obtain rfl : removed = .settled := by simpa [Outcome.isRequeue] using hrequeue
        have gone := removeExport_run hrun
        refine keeps_bind.2 ((lawful_releaseHost known).mono ?_)
        rintro (e | u) ⟨past2, t2, fs2⟩ ⟨known2, hfs, freed⟩
        · exact fun h => nomatch h
        · obtain rfl : fs2 = fs1 := hfs
          refine lawful_hosting known2 trivial id fun _ t3 known' => ?_
          refine keeps_ask fun reply s' _ => ⟨?_, ?_⟩
          · exact
              { reads := False.elim
                provides := False.elim
                guards := fun hmem => absurd hmem (by simp [Request.Guards])
                touches := fun _ => known'.unguarded
                releases := fun k version finalizers hq _ => by
                  obtain ⟨rfl, -⟩ : c.key = k ∧ _ := by simpa using hq
                  refine ⟨c, rfl, known'.read, hdeleting, hguarded, gone, fun r hr => ?_⟩
                  exact hostFreedIn_append (freed rfl r hr) _ }
          · cases reply with
            | error e => exact fun h => nomatch h
            | ok u => exact fun h => nomatch h

private theorem lawful_ensureFinalizer {s : τ × FileSystem}
    (hquiet : ∀ g ∈ past, ¬g.request.Touches) :
    (ensureFinalizer c).Keeps (recording (besideFiles store) (Lawful dataDir key))
      (fun result a => result = .ok .proceed → c.hasFinalizer = true ∧ a.1 = past) (past, s) := by
  have unguarded {g : Event (τ × FileSystem)} (hg : ¬g.request.Touches) : ¬g.request.Guards := by
    obtain ⟨s, q, reply⟩ := g
    cases q with
    | store call => cases call <;> simp_all [Request.Touches, Request.Guards]
    | file call => exact id
    | note notice => exact id
  unfold ensureFinalizer
  cases hguarded : c.hasFinalizer with
  | true => exact fun _ => ⟨rfl, rfl⟩
  | false =>
    refine keeps_ask fun _ s1 _ => ⟨⟨False.elim, False.elim, False.elim, False.elim, by simp⟩, ?_⟩
    refine keeps_ask fun reply s2 _ => ⟨?_, ?_⟩
    · have quiet : ∀ g ∈ past ++ [⟨s, .note (.finalizerAdded c.key), ()⟩], ¬g.request.Touches := by
        simpa [or_imp, forall_and] using ⟨hquiet, id⟩
      exact
        { reads := False.elim
          provides := False.elim
          guards := fun _ => quiet
          touches := fun _ g hg => unguarded (quiet g hg)
          releases := fun k version finalizers hq hf => by
            obtain ⟨-, -, rfl⟩ : c.key = k ∧ _ ∧ _ = finalizers := by simpa using hq
            simp at hf }
    · cases reply with
      | error e => exact fun h => nomatch h
      | ok u => exact fun h => nomatch h

private theorem lawful_handle {ctx : ReconcileContext} (known : Known key c past)
    (quiet : ∀ g ∈ past, ¬g.request.Touches) {s : τ × FileSystem} :
    (lifecycleStep ctx.dataDir c >>= fun
      | .halt outcome => return outcome
      | .proceed => converge ctx key c).Keeps
      (recording (besideFiles store) (Lawful ctx.dataDir key)) (fun _ _ => True) (past, s) := by
  refine keeps_bind.2 ?_
  unfold lifecycleStep
  cases hdeleting : c.metadata.isDeleting with
  | true =>
    refine (lawful_terminate known hdeleting).mono ?_
    rintro (e | step) a hhalt
    · trivial
    · cases step with
      | halt outcome => trivial
      | proceed => exact absurd rfl hhalt
  | false =>
    refine (lawful_ensureFinalizer quiet).mono ?_
    rintro (e | step) ⟨past', s'⟩ hproceed
    · trivial
    · cases step with
      | halt outcome => trivial
      | proceed =>
        obtain ⟨hguarded, rfl⟩ := hproceed rfl
        exact (lawful_only (converge_only ctx key c)
          (fun _ hq => hq.elim Request.Exporting.working Request.Hosting.working)
          (fun _ _ _ => ⟨hdeleting, hguarded⟩) known).mono fun _ _ _ => trivial

private theorem lawful_reconcile (ctx : ReconcileContext) (key : ObjectKey) (s : τ × FileSystem) :
    (reconcile ctx key).Keeps (recording (besideFiles store) (Lawful ctx.dataDir key))
      (fun _ _ => True) ([], s) := by
  refine keeps_ask fun _ s1 _ => ⟨⟨False.elim, False.elim, False.elim, False.elim, by simp⟩, ?_⟩
  refine keeps_ask fun found s2 _ => ⟨?_, ?_⟩
  · exact ⟨fun _ => ⟨rfl, by simp [Request.ReadsConfig]⟩, False.elim, False.elim, False.elim,
      by simp⟩
  · cases found with
    | error e => trivial
    | ok found =>
      cases found with
      | none => trivial
      | some c =>
        refine lawful_handle (c := c) ⟨⟨s1, List.mem_concat_self⟩, ?_⟩ ?_
        · simp [Request.Guards]
        · simp [Request.Touches]

end Steps

/-- Whatever a store answers, whatever tree of files there is and whichever locks are held, a
reconcile of a key follows the protocol. -/
theorem reconcile_protocol (store : StoreBehaviour τ) (ctx : ReconcileContext) (key : ObjectKey)
    (t : τ) (fs : FileSystem) :
    FinalizerProtocol ctx.dataDir key ((reconcile ctx key).history (besideFiles store) (t, fs))
      ((reconcile ctx key).run (besideFiles store) (t, fs)).1 where
  lawful before e after hsplit := by
    have hlawful := (lawful_reconcile ctx key (t, fs)).history.1 before e after hsplit
    simpa using hlawful
  stops before e after b hsplit hb :=
    reconcile_aftermath (besideFiles store) ctx key (t, fs) hsplit hb

end Relocation
