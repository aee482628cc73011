import Relocation.Proofs.Amendments
import Relocation.Proofs.Deletion

/-!
The two phases of an undisturbed reconcile: work on the files of a config, and amendments of the
store that follow from the config, its host and the result of that work (`reconciled_phases`).
-/

set_option autoImplicit false

namespace Relocation

open Files (FileSystem)
open Program Store

/-- What a reconcile does with the files of a config: none of it before the config is guarded, a
removal when it is to be deleted, and otherwise an export. -/
def fileWork (dataDir : Path) (c : ClusterConfig) : Program Outcome :=
  if !c.hasFinalizer then return .settled
  else if c.metadata.isDeleting then removeExport dataDir c.key
  else exportConfig dataDir c

/-- The amendments that take the image away from the host of a config, if there is one. -/
def clearing (c : ClusterConfig) (host : Option Host) : List Amendment :=
  match c.spec.bareMetalHostRef, host with
  | some r, some h => if h.spec.image.isNone then [] else [.host r.key { image := .clear }]
  | _, _ => []

/-- How a reconcile ends after the host of a config, if it references one, was made to boot its
image, and the amendments that this takes. -/
def booting (url : String) (c : ClusterConfig) (host : Option Host) :
    Except Error Outcome × List Amendment :=
  match c.spec.bareMetalHostRef, host with
  | none, _ => (.ok .settled, [])
  | some r, none => (.error (.notFound "BareMetalHost" r.key.text), [])
  | some r, some h => (.ok .settled, if (HostPatch.bootFrom h.spec url).isEmpty then []
      else [.host r.key (HostPatch.bootFrom h.spec url)])

/-- How a reconcile ends after its work on files, and the amendments of the store that it makes. -/
def conclusion (url : String) (c : ClusterConfig) (host : Option Host) :
    Except Error Outcome → Except Error Outcome × List Amendment
  | .error e => (.error e, [])
  | .ok worked =>
    if c.metadata.isDeleting then
      if !c.hasFinalizer then (.ok .settled, [])
      else if worked.isRequeue then (.ok worked, [])
      else (.ok .settled, clearing c host ++ [.finalizers c.key (foreignFinalizers c)])
    else
      if !c.hasFinalizer then
        (.ok .requeueNow, [.finalizers c.key (c.metadata.finalizerList ++ [ourFinalizer])])
      else if worked.isRequeue then (.ok worked, [])
      else booting url c host

section Own

variable {c : ClusterConfig} {host : Option Host} {a : Amendment}

private theorem clearing_own (h : a ∈ clearing c host) :
    ∃ key patch, c.hostKey? = some key ∧ a = .host key patch := by
  unfold clearing at h
  split at h
  · rename_i r found hr
    split at h
    · cases h
    · exact ⟨r.key, _, by simp [ClusterConfig.hostKey?, hr], List.mem_singleton.1 h⟩
  · cases h

private theorem booting_own {url : String} (h : a ∈ (booting url c host).2) :
    ∃ key patch, c.hostKey? = some key ∧ a = .host key patch := by
  unfold booting at h
  split at h
  · cases h
  · cases h
  · rename_i r found hr
    dsimp only at h
    split at h
    · cases h
    · exact ⟨r.key, _, by simp [ClusterConfig.hostKey?, hr], List.mem_singleton.1 h⟩

theorem conclusion_own {url : String} {worked : Except Error Outcome}
    (h : a ∈ (conclusion url c host worked).2) : (∃ list, a = .finalizers c.key list) ∨
      ∃ key patch, c.hostKey? = some key ∧ a = .host key patch := by
  unfold conclusion at h
  split at h
  · cases h
  · split at h <;> split at h
    · cases h
    · split at h
      · cases h
      · rcases List.mem_append.1 h with hcleared | hreleased
        · exact .inr (clearing_own hcleared)
        · exact .inl ⟨_, List.mem_singleton.1 hreleased⟩
    · exact .inl ⟨_, List.mem_singleton.1 h⟩
    · split at h
      · cases h
      · exact .inr (booting_own h)

end Own

section Amended

variable {m : Memory} {fs : FileSystem} {c : ClusterConfig}

private theorem run_answered {call : StoreCall} {m' : Memory} {x : Except Error call.Result}
    (h : m.answer call = (x, m')) :
    (Program.store call).run (besideFiles Memory.answer) (m, fs) = (x, m', fs) := by
  rw [run_store, besideFiles, h]

private theorem run_noted (notice : Notice) (m : Memory) (fs : FileSystem) :
    (Program.note notice).run (besideFiles Memory.answer) (m, fs) = (.ok (), m, fs) := rfl

private theorem run_getHost (key : ObjectKey) (m : Memory) (fs : FileSystem) :
    (Program.store (.getHost key)).run (besideFiles Memory.answer) (m, fs) =
      (.ok (m.hosts.get? key), m, fs) := rfl

private theorem hostFreed_amends (m : Memory) (c : ClusterConfig) :
    m.hostFreed c = m.applyAll (clearing c (c.hostKey?.bind m.hosts.get?)) := by
  cases hr : c.spec.bareMetalHostRef with
  | none => simp [Memory.hostFreed, clearing, hr, Memory.applyAll]
  | some r =>
    have hhost : c.hostKey?.bind m.hosts.get? = m.hosts.get? r.key := by
      simp [ClusterConfig.hostKey?, hr]
    rw [hhost]
    cases hget : m.hosts.get? r.key with
    | none => simp [Memory.hostFreed, clearing, hr, hget, Memory.applyAll]
    | some host =>
      by_cases himage : host.spec.image = none
      · simp [Memory.hostFreed, clearing, hr, hget, himage, Memory.applyAll]
      · rw [Memory.hostFreed_some hr hget himage]
        simp [clearing, hr, himage, Memory.applyAll, apply_host_some hget, HostPatch.applyTo]

private theorem setImage_amends {r : HostReference} (hr : c.spec.bareMetalHostRef = some r)
    (url : String) (m : Memory) (fs : FileSystem) :
    ∃ patched : Except Error Bool, (setImage r url).run (besideFiles Memory.answer) (m, fs) =
        (patched, m.applyAll (booting url c (m.hosts.get? r.key)).2, fs) ∧
      patched.map (fun _ => Outcome.settled) = (booting url c (m.hosts.get? r.key)).1 := by
  have hfound := run_getHost r.key m fs
  cases hget : m.hosts.get? r.key with
  | none =>
    have hnothing : booting url c none =
        (.error (.notFound "BareMetalHost" r.key.text), []) := by simp [booting, hr]
    rw [hget] at hfound
    rw [hnothing]
    exact ⟨_, run_bind_ok hfound, rfl⟩
  | some host =>
    rw [hget] at hfound
    cases hempty : (HostPatch.bootFrom host.spec url).isEmpty with
    | true =>
      have hnothing : booting url c (some host) = (.ok .settled, []) := by
        simp [booting, hr, hempty]
      rw [hnothing]
      refine ⟨.ok false, (run_bind_ok hfound).trans ?_, rfl⟩
      simp only [hempty, if_true]
      rfl
    | false =>
      have hone : booting url c (some host) =
          (.ok .settled, [.host r.key (HostPatch.bootFrom host.spec url)]) := by
        simp [booting, hr, hempty]
      have hpatched : (Program.store (.patchHost r.key host.metadata.resourceVersion
          (HostPatch.bootFrom host.spec url))).run (besideFiles Memory.answer) (m, fs) =
            (.ok (), m.applyAll [.host r.key (HostPatch.bootFrom host.spec url)], fs) :=
        run_answered (answer_patchHost_stored hget)
      rw [hone]
      refine ⟨.ok true, (run_bind_ok hfound).trans ?_, rfl⟩
      simp only [hempty]
      exact (run_bind_ok (run_noted _ m fs)).trans (run_bind_ok hpatched)

private theorem syncHost_amends (serviceUrl : String) (k : ObjectKey) (c : ClusterConfig)
    (m : Memory) (fs : FileSystem) :
    (do syncHost serviceUrl k c; Program.note .reconcileComplete; return Outcome.settled :
        Program Outcome).run (besideFiles Memory.answer) (m, fs) =
      ((booting (imageUrl serviceUrl k) c (c.hostKey?.bind m.hosts.get?)).1,
        m.applyAll (booting (imageUrl serviceUrl k) c (c.hostKey?.bind m.hosts.get?)).2, fs) := by
  unfold syncHost
  cases hr : c.spec.bareMetalHostRef with
  | none =>
    have hnothing (host : Option Host) : booting (imageUrl serviceUrl k) c host =
        (.ok .settled, []) := by simp [booting, hr]
    rw [hnothing]
    rfl
  | some r =>
    have hhost : c.hostKey?.bind m.hosts.get? = m.hosts.get? r.key := by
      simp [ClusterConfig.hostKey?, hr]
    obtain ⟨patched, hrun, hresult⟩ := setImage_amends hr (imageUrl serviceUrl k) m fs
    rw [hhost, ← hresult, run_bind, run_bind, hrun]
    cases patched <;> rfl

private theorem releaseFinalizer_amends (hget : m.configs.get? c.key = some c) (fs : FileSystem) :
    (releaseFinalizer c).run (besideFiles Memory.answer) (m, fs) =
      (.ok (.halt .settled), m.applyAll [.finalizers c.key (foreignFinalizers c)], fs) := by
  have hpatched : (Program.store (.patchFinalizers c.key c.metadata.resourceVersion
      (foreignFinalizers c))).run (besideFiles Memory.answer) (m, fs) =
        (.ok (), m.applyAll [.finalizers c.key (foreignFinalizers c)], fs) :=
    run_answered (answer_patchFinalizers_stored hget)
  exact (run_bind_ok (run_noted _ m fs)).trans (run_bind_ok hpatched)

private theorem ensureFinalizer_amends (hget : m.configs.get? c.key = some c)
    (hunguarded : c.hasFinalizer = false) (fs : FileSystem) :
    (ensureFinalizer c).run (besideFiles Memory.answer) (m, fs) =
      (.ok (.halt .requeueNow), m.applyAll
        [.finalizers c.key (c.metadata.finalizerList ++ [ourFinalizer])], fs) := by
  have hpatched : (Program.store (.patchFinalizers c.key c.metadata.resourceVersion
      (c.metadata.finalizerList ++ [ourFinalizer]))).run (besideFiles Memory.answer) (m, fs) =
        (.ok (), m.applyAll [.finalizers c.key (c.metadata.finalizerList ++ [ourFinalizer])], fs) :=
    run_answered (answer_patchFinalizers_stored hget)
  simp only [ensureFinalizer, hunguarded]
  exact (run_bind_ok (run_noted _ m fs)).trans (run_bind_ok hpatched)

end Amended

section Phases

variable {ctx : ReconcileContext} {k : ObjectKey} {c : ClusterConfig} {m : Memory}
  {fs gs : FileSystem} {worked : Except Error Outcome}

private theorem reconciled_found (hget : m.configs.get? k = some c) :
    reconciled ctx k (m, fs) = (do
      match ← lifecycleStep ctx.dataDir c with
      | .halt outcome => return outcome
      | .proceed => converge ctx k c : Program Outcome).run (besideFiles Memory.answer)
        (m, fs) := by
  have hread : (Program.store (.getConfig k)).run (besideFiles Memory.answer) (m, fs) =
      (.ok (some c), m, fs) := by
    rw [run_store, besideFiles, Memory.answer, hget]
  exact (run_bind_ok (run_noted _ m fs)).trans (run_bind_ok hread)

theorem reconciled_absent (hget : m.configs.get? k = none) :
    reconciled ctx k (m, fs) = (.ok .settled, m, fs) := by
  have hread : (Program.store (.getConfig k)).run (besideFiles Memory.answer) (m, fs) =
      (.ok none, m, fs) := by
    rw [run_store, besideFiles, Memory.answer, hget]
  exact (run_bind_ok (run_noted _ m fs)).trans (run_bind_ok hread)

private theorem unguarded_phases (hget : m.configs.get? c.key = some c)
    (hguarded : c.hasFinalizer = false) :
    reconciled ctx c.key (m, fs) =
      ((conclusion (imageUrl ctx.serviceUrl c.key) c (c.hostKey?.bind m.hosts.get?)
          (.ok .settled)).1,
        m.applyAll (conclusion (imageUrl ctx.serviceUrl c.key) c (c.hostKey?.bind m.hosts.get?)
          (.ok .settled)).2, fs) := by
  rw [reconciled_found hget, lifecycleStep]
  cases hdeleting : c.metadata.isDeleting with
  | true =>
    have hstep : (terminate ctx.dataDir c).run (besideFiles Memory.answer) (m, fs) =
        (.ok (.halt .settled), m, fs) := by
      simp only [terminate, hguarded]
      rfl
    simp only [conclusion, hdeleting, hguarded, if_true, Bool.not_false]
    exact run_bind_ok hstep
  | false =>
    simp only [conclusion, hdeleting, hguarded, if_true, Bool.not_false]
    exact run_bind_ok (ensureFinalizer_amends hget hguarded fs)

private theorem deleting_phases (hget : m.configs.get? c.key = some c)
    (hguarded : c.hasFinalizer = true) (hdeleting : c.metadata.isDeleting = true)
    (hwork : (removeExport ctx.dataDir c.key).run (besideFiles Memory.answer) (m, fs) =
      (worked, m, gs)) :
    reconciled ctx c.key (m, fs) =
      ((conclusion (imageUrl ctx.serviceUrl c.key) c (c.hostKey?.bind m.hosts.get?) worked).1,
        m.applyAll
          (conclusion (imageUrl ctx.serviceUrl c.key) c (c.hostKey?.bind m.hosts.get?) worked).2,
        gs) := by
  have hterminate : terminate ctx.dataDir c = (do
      let removed ← removeExport ctx.dataDir c.key
      if removed.isRequeue then return .halt removed
      else
        releaseHost c
        releaseFinalizer c) := by
    simp [terminate, hguarded]
  have hfreed (fs : FileSystem) := releaseHost_undisturbed m c fs
  rw [hostFreed_amends] at hfreed
  rw [reconciled_found hget, lifecycleStep, if_pos hdeleting]
  generalize c.hostKey?.bind m.hosts.get? = host at hfreed ⊢
  cases worked with
  | error e =>
    rw [hterminate, run_bind, run_bind, hwork]
    rfl
  | ok removed =>
    cases hrequeue : removed.isRequeue with
    | true =>
      have hlast (url : String) : conclusion url c host (.ok removed) = (.ok removed, []) := by
        simp [conclusion, hdeleting, hguarded, hrequeue]
      have hstep : (terminate ctx.dataDir c).run (besideFiles Memory.answer) (m, fs) =
          (.ok (.halt removed), m, gs) := by
        rw [hterminate, run_bind_ok hwork]
        simp only [hrequeue, if_true]
        rfl
      rw [hlast]
      exact run_bind_ok hstep
    | false =>
      have hhosts : ∀ a ∈ clearing c host, ∀ list, a ≠ .finalizers c.key list := by
        rintro a ha list rfl
        obtain ⟨key, patch, -, heq⟩ := clearing_own ha
        cases heq
      have hlast (url : String) : conclusion url c host (.ok removed) =
          (.ok .settled, clearing c host ++ [.finalizers c.key (foreignFinalizers c)]) := by
        simp [conclusion, hdeleting, hguarded, hrequeue]
      have hstill : (m.applyAll (clearing c host)).configs.get? c.key = some c :=
        (configs_applyAll hhosts m).trans hget
      have hstep : (terminate ctx.dataDir c).run (besideFiles Memory.answer) (m, fs) =
          (.ok (.halt .settled), (m.applyAll (clearing c host)).applyAll
            [.finalizers c.key (foreignFinalizers c)], gs) := by
        rw [hterminate, run_bind_ok hwork]
        simp only [hrequeue]
        exact (run_bind_ok (hfreed gs)).trans (releaseFinalizer_amends hstill gs)
      rw [hlast, applyAll_append]
      exact run_bind_ok hstep

private theorem alive_phases (hget : m.configs.get? c.key = some c)
    (hguarded : c.hasFinalizer = true) (hdeleting : c.metadata.isDeleting = false)
    (hwork : (exportConfig ctx.dataDir c).run (besideFiles Memory.answer) (m, fs) =
      (worked, m, gs)) :
    reconciled ctx c.key (m, fs) =
      ((conclusion (imageUrl ctx.serviceUrl c.key) c (c.hostKey?.bind m.hosts.get?) worked).1,
        m.applyAll
          (conclusion (imageUrl ctx.serviceUrl c.key) c (c.hostKey?.bind m.hosts.get?) worked).2,
        gs) := by
  have hproceeds : (lifecycleStep ctx.dataDir c).run (besideFiles Memory.answer) (m, fs) =
      (.ok .proceed, m, fs) := by
    simp only [lifecycleStep, hdeleting, ensureFinalizer, hguarded]
    rfl
  have hsynced := syncHost_amends ctx.serviceUrl c.key c m gs
  rw [reconciled_found hget]
  refine (run_bind_ok hproceeds).trans ?_
  generalize c.hostKey?.bind m.hosts.get? = host at hsynced ⊢
  rw [converge]
  cases worked with
  | error e =>
    rw [run_bind, hwork]
    rfl
  | ok exported =>
    rw [run_bind_ok hwork]
    cases hrequeue : exported.isRequeue with
    | true =>
      have hlast (url : String) : conclusion url c host (.ok exported) = (.ok exported, []) := by
        simp [conclusion, hdeleting, hguarded, hrequeue]
      rw [hlast]
      rfl
    | false =>
      have hlast (url : String) : conclusion url c host (.ok exported) = booting url c host := by
        simp [conclusion, hdeleting, hguarded, hrequeue]
      rw [hlast]
      exact hsynced

/-- A reconcile works on files, which leaves the store as it is, and then amends the store. -/
theorem reconciled_phases (hkey : c.key = k) (hget : m.configs.get? k = some c)
    (hwork : (fileWork ctx.dataDir c).run (besideFiles Memory.answer) (m, fs) = (worked, m, gs)) :
    reconciled ctx k (m, fs) =
      ((conclusion (imageUrl ctx.serviceUrl k) c (c.hostKey?.bind m.hosts.get?) worked).1,
        m.applyAll
          (conclusion (imageUrl ctx.serviceUrl k) c (c.hostKey?.bind m.hosts.get?) worked).2,
        gs) := by
  subst hkey
  unfold fileWork at hwork
  cases hguarded : c.hasFinalizer with
  | false =>
    simp only [hguarded] at hwork
    obtain ⟨rfl, rfl⟩ : .ok .settled = worked ∧ fs = gs := by simpa using hwork
    exact unguarded_phases hget hguarded
  | true =>
    simp only [hguarded] at hwork
    cases hdeleting : c.metadata.isDeleting with
    | true =>
      simp only [hdeleting] at hwork
      exact deleting_phases hget hguarded hdeleting hwork
    | false =>
      simp only [hdeleting] at hwork
      exact alive_phases hget hguarded hdeleting hwork

end Phases

end Relocation
