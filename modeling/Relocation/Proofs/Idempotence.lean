import Relocation.Proofs.Convergence
import Relocation.Proofs.Exports
import Relocation.Proofs.Files.Making
import Relocation.Proofs.Requests
import Relocation.Proofs.Runs
import Relocation.Proofs.Versions

/-!
A reconcile that has settled is at rest. However it came to settle, it leaves a state that another
reconcile finds in order (`steady_of_settled`): the config is gone, or it waits for others to let it
go, or all that it calls for is exported and its host boots the image. In such a state a reconcile
patches nothing, writes nothing and settles again (`reconciled_again`).
-/

set_option autoImplicit false

namespace Relocation

open Files (FileSystem)
open Program Store

/-- A request that changes nothing in a state, and finds it as it was. -/
structure Unchanging (t : Memory × FileSystem) (e : Event (Memory × FileSystem)) : Prop where
  patches : ¬e.request.Patches
  writes : ¬e.request.Writes
  removes : ¬e.request.Removes
  store : e.state.1 = t.1
  entries : e.state.2.entries = t.2.entries
  nextInode : e.state.2.nextInode = t.2.nextInode

/-- All that a config calls for is exported, and the lock of the export is free. -/
structure Exported (ctx : ReconcileContext) (c : ClusterConfig) (t : Memory × FileSystem) :
    Prop where
  directory : t.2.makeDirs Files.privateDirMode (exportDirs ctx.dataDir c.key).files = (.ok (), t.2)
  lock : ∃ inode, t.2.Names (ctx.lockPath c.key) inode ∧ inode ∉ t.2.held
  texts : ∃ artifacts, (collect c).run (besideFiles Memory.answer) t = (.ok artifacts, t) ∧
    ∀ artifact text, (artifact, text) ∈ artifacts →
      t.2.readFile ((exportDirs ctx.dataDir c.key).files.join artifact.fileName) = .ok text

/-- A state that a reconcile finds in order. -/
inductive Steady (ctx : ReconcileContext) (k : ObjectKey) (t : Memory × FileSystem) : Prop
  | absent (missing : t.1.configs.get? k = none)
  | leaving {c : ClusterConfig} (stored : t.1.configs.get? k = some c)
      (deleting : c.metadata.isDeleting = true) (released : c.hasFinalizer = false)
  | living {c : ClusterConfig} (stored : t.1.configs.get? k = some c)
      (alive : c.metadata.isDeleting = false) (guarded : c.hasFinalizer = true)
      (exported : Exported ctx c t)
      (host : ∀ r, c.spec.bareMetalHostRef = some r → ∃ h, t.1.hosts.get? r.key = some h ∧
        (HostPatch.bootFrom h.spec (imageUrl ctx.serviceUrl k)).isEmpty = true)

section Still

variable {ctx : ReconcileContext} {k : ObjectKey} {c : ClusterConfig}
  {s t u v : Memory × FileSystem} {α β : Type}

private structure Same (t s : Memory × FileSystem) : Prop where
  store : s.1 = t.1
  entries : s.2.entries = t.2.entries
  nextInode : s.2.nextInode = t.2.nextInode

/-- A program comes from a state to a result and a state, and none of its requests changes what is
the case at first. -/
private def Still (t : Memory × FileSystem) (p : Program α) (s : Memory × FileSystem)
    (r : Except Error α) (u : Memory × FileSystem) : Prop :=
  ∀ past, p.Keeps (recording (besideFiles Memory.answer) fun _ => Unchanging t)
    (fun r' a => r' = r ∧ a.2 = u) (past, s)

private theorem same_refl (t : Memory × FileSystem) : Same t t := ⟨rfl, rfl, rfl⟩

private theorem still_done (r : Except Error α) : Still t (done r) s r s := fun _ => ⟨rfl, rfl⟩

private theorem still_bind {p : Program α} {f : α → Program β} {a : α} {r : Except Error β}
    (hp : Still t p s (.ok a) u) (hf : Still t (f a) u r v) : Still t (p >>= f) s r v := by
  intro past
  refine keeps_bind.2 ((hp past).mono ?_)
  rintro r' ⟨past', u'⟩ ⟨rfl, rfl⟩
  exact hf past'

private theorem still_attempt {p : Program α} {r : Except Error α} (hp : Still t p s r u) :
    Still t p.attempt s (.ok r) u := by
  intro past
  refine keeps_attempt.2 ((hp past).mono ?_)
  rintro r' a ⟨rfl, rfl⟩
  exact ⟨rfl, rfl⟩

private theorem still_ask {q : Request} {next : q.Reply → Program α} {reply : q.Reply}
    {r : Except Error α} (h : Same t s) (hquiet : ¬q.Patches ∧ ¬q.Writes ∧ ¬q.Removes)
    (hworld : besideFiles Memory.answer q s = (reply, u)) (hnext : Still t (next reply) u r v) :
    Still t (ask q next) s r v := by
  intro past
  refine keeps_ask fun reply' u' hworld' => ?_
  obtain ⟨rfl, rfl⟩ := Prod.mk.inj (hworld'.symm.trans hworld)
  exact ⟨⟨hquiet.1, hquiet.2.1, hquiet.2.2, h.store, h.entries, h.nextInode⟩, hnext _⟩

private theorem still_note (h : Same t s) (notice : Notice) :
    Still t (note notice) s (.ok ()) s :=
  still_ask h ⟨id, id, id⟩ rfl (still_done _)

private theorem still_getConfig (found : Option ClusterConfig) (h : t.1.configs.get? k = found) :
    Still t (store (.getConfig k)) t (.ok found) t := by
  have hworld : besideFiles Memory.answer (.store (.getConfig k)) t = (.ok found, t) := by
    rw [besideFiles, Memory.answer, h]
  exact still_ask (same_refl t) ⟨id, id, id⟩ hworld (still_done _)

private theorem still_writeArtifacts {dir : Path} {artifacts : List (Artifact × String)}
    (h : Same t s) (hread : ∀ artifact text, (artifact, text) ∈ artifacts →
      s.2.readFile (dir.join artifact.fileName) = .ok text) :
    Still t (writeArtifacts dir artifacts) s (.ok ()) s := by
  induction artifacts with
  | nil => exact still_done _
  | cons p rest ih =>
    obtain ⟨artifact, text⟩ := p
    have hfirst : s.2.readFile (dir.join artifact.fileName) = .ok text :=
      hread artifact text List.mem_cons_self
    have hworld : besideFiles Memory.answer (.file (.read (dir.join artifact.fileName))) s =
        (.ok text, s) := Prod.ext hfirst rfl
    have hkept : Still t (writeIfChanged (dir.join artifact.fileName) text) s (.ok (.ok ())) s := by
      refine still_ask h ⟨id, id, id⟩ hworld ?_
      simp only [Program.bind, if_true]
      exact still_done _
    exact still_bind hkept
      (ih fun artifact' text' hmem => hread artifact' text' (List.mem_cons_of_mem _ hmem))

private theorem still_collect {artifacts : List (Artifact × String)}
    (hrun : (collect c).run (besideFiles Memory.answer) t = (.ok artifacts, t)) :
    Still t (collect c) t (.ok artifacts) t := by
  intro past
  have honly : (collect c).Only fun q => ∃ key, q = .store (.getSecret key) :=
    collect_only fun ref _ => ⟨ref.2.key, rfl⟩
  have hkeeps : (collect c).Keeps (recording (besideFiles Memory.answer) fun _ => Unchanging t)
      (fun _ a => a.2 = t) (past, t) := by
    refine honly.keeps rfl ?_ ?_
    · rintro a b ha rfl
      exact ha
    · rintro ⟨past, u⟩ q reply ⟨past', v⟩ rfl ⟨key, rfl⟩ ⟨hworld, -⟩
      obtain rfl : u = v := congrArg Prod.snd hworld
      exact ⟨⟨id, id, id, rfl, rfl, rfl⟩, rfl⟩
  refine hkeeps.with_run.mono fun r a ha => ?_
  obtain ⟨hstate, hagain⟩ := ha
  exact ⟨congrArg Prod.fst (hagain.symm.trans hrun), hstate⟩

/-- An action that is still under the free lock of a directory is still with the lock around it. -/
private theorem still_withWriteLock {dir : Path} {action : Program α} {x : α} {inode : Nat}
    (hnames : t.2.Names (dir.join lockFileName) inode) (hfree : inode ∉ t.2.held)
    (haction : ∀ s, Same t s → Still t action s (.ok x) s) :
    Still t (withWriteLock dir action) t (.ok (some x)) t := by
  have hopen : besideFiles Memory.answer (.file (.openLock (dir.join lockFileName))) t =
      (.ok inode, t) := by
    rw [besideFiles, Files.FileSystem.openLock_of_names hnames]
  have hlock : besideFiles Memory.answer (.file (.tryLock inode)) t =
      (.ok true, t.1, { t.2 with held := inode :: t.2.held }) := by
    rw [besideFiles, Files.FileSystem.answer_tryLock_free hfree]
  have hrelease : besideFiles Memory.answer (.file (.release inode))
      (t.1, { t.2 with held := inode :: t.2.held }) = (.ok (), t) := by
    simp [besideFiles, Files.FileSystem.answer, Files.FileSystem.release]
  have hlocked : Same t (t.1, { t.2 with held := inode :: t.2.held }) := ⟨rfl, rfl, rfl⟩
  have htaken : Still t (tryWriteLock dir) t (.ok (some inode))
      (t.1, { t.2 with held := inode :: t.2.held }) :=
    still_ask (same_refl t) ⟨id, id, id⟩ hopen
      (still_ask (same_refl t) ⟨id, id, id⟩ hlock (still_done _))
  refine still_bind htaken (still_bind (still_attempt (haction _ hlocked)) ?_)
  exact still_ask hlocked ⟨id, id, id⟩ hrelease (still_done _)

private theorem still_exportConfig (h : Exported ctx c t) :
    Still t (exportConfig ctx.dataDir c) t (.ok .settled) t := by
  obtain ⟨artifacts, hcollect, htexts⟩ := h.texts
  obtain ⟨inode, hnames, hfree⟩ := h.lock
  have hmake : besideFiles Memory.answer
      (.file (.makeDirs (exportDirs ctx.dataDir c.key).files)) t = (.ok (), t) := by
    rw [besideFiles, Files.FileSystem.answer, h.directory]
  have hmade : Still t (file (.makeDirs (exportDirs ctx.dataDir c.key).files)) t (.ok ()) t :=
    still_ask (same_refl t) ⟨id, id, id⟩ hmake (still_done _)
  have hwritten : Still t (withWriteLock (exportDirs ctx.dataDir c.key).lock
      (writeArtifacts (exportDirs ctx.dataDir c.key).files artifacts)) t (.ok (some ())) t := by
    refine still_withWriteLock hnames hfree fun s hsame => ?_
    refine still_writeArtifacts hsame fun artifact text hmem => ?_
    rw [Files.FileSystem.readFile_congr hsame.entries]
    exact htexts artifact text hmem
  exact still_bind (still_collect hcollect) (still_bind hmade (still_bind hwritten (still_done _)))

private theorem still_syncHost
    (hhost : ∀ r, c.spec.bareMetalHostRef = some r → ∃ h, t.1.hosts.get? r.key = some h ∧
      (HostPatch.bootFrom h.spec (imageUrl ctx.serviceUrl k)).isEmpty = true) :
    Still t (syncHost ctx.serviceUrl k c) t (.ok ()) t := by
  unfold syncHost
  cases hreference : c.spec.bareMetalHostRef with
  | none => exact still_done _
  | some r =>
    obtain ⟨h, hget, hempty⟩ := hhost r hreference
    have hworld : besideFiles Memory.answer (.store (.getHost r.key)) t = (.ok (some h), t) := by
      rw [besideFiles, Memory.answer, hget]
    have hset : Still t (setImage r (imageUrl ctx.serviceUrl k)) t (.ok false) t := by
      refine still_ask (same_refl t) ⟨id, id, id⟩ hworld ?_
      simp only [Program.bind, hempty, if_true]
      exact still_done _
    exact still_bind hset (still_done _)

private theorem still_reconcile (h : Steady ctx k t) :
    Still t (reconcile ctx k) t (.ok .settled) t := by
  refine still_bind (still_note (same_refl t) .reconcileStarted) ?_
  cases h with
  | absent missing => exact still_bind (still_getConfig none missing) (still_done _)
  | @leaving c stored deleting released =>
    have hstep : Still t (lifecycleStep ctx.dataDir c) t (.ok (.halt .settled)) t := by
      simp only [lifecycleStep, deleting, if_true, terminate, released]
      exact still_done _
    exact still_bind (still_getConfig (some c) stored) (still_bind hstep (still_done _))
  | @living c stored alive guarded exported host =>
    have hstep : Still t (lifecycleStep ctx.dataDir c) t (.ok .proceed) t := by
      simp only [lifecycleStep, alive, ensureFinalizer, guarded, if_true]
      exact still_done _
    have hconverge : Still t (converge ctx k c) t (.ok .settled) t :=
      still_bind (still_exportConfig exported) (still_bind (still_syncHost host)
        (still_bind (still_note (same_refl t) .reconcileComplete) (still_done _)))
    exact still_bind (still_getConfig (some c) stored) (still_bind hstep hconverge)

end Still

section Settled

variable {ctx : ReconcileContext} {k : ObjectKey} {c : ClusterConfig} {s t u : Memory × FileSystem}
  {m : Memory} {fs : FileSystem}

private theorem run_of_secrets {α : Type} {p : Program α}
    (hp : p.Only fun q => ∃ key, q = .store (.getSecret key)) (h : t.1.secrets = s.1.secrets) :
    p.run (besideFiles Memory.answer) t = ((p.run (besideFiles Memory.answer) s).1, t) := by
  induction p generalizing s with
  | done r => rfl
  | ask q next ih =>
    obtain ⟨⟨key, rfl⟩, hnext⟩ := hp
    have hreply : (besideFiles Memory.answer (.store (.getSecret key)) t).1 =
        (besideFiles Memory.answer (.store (.getSecret key)) s).1 := by
      simp only [besideFiles, Memory.answer, h]
    have hagain := ih (besideFiles Memory.answer (.store (.getSecret key)) t).1 (hnext _) h
    rw [run_ask, run_ask, ← hreply]
    exact hagain

theorem exported_of_run (hl : fs.Linkless)
    (h : (exportConfig ctx.dataDir c).run (besideFiles Memory.answer) (m, fs) =
      (.ok .settled, t)) :
    t.1 = m ∧ Exported ctx c t := by
  have hworld := refusing_besideFiles Memory.answer
  have hending := exportConfig_ending hworld ctx.dataDir c m fs
  rw [h] at hending
  cases hending with
  | @written m1 m2 made opened after artifacts inode prepared free writing =>
    have hname : PathName "files" := pathNames_files "files" (List.mem_singleton_self _)
    have hcollect := prepared.collected
    have hstays := run_of_secrets (t := (m, fs)) (collect_reads c) rfl
    rw [hcollect] at hstays
    obtain rfl : m1 = m := congrArg (fun a => a.2.1) hstays
    have hl2 : ({ opened with held := inode :: opened.held } : FileSystem).Linkless :=
      prepared.opened_linkless hl
    obtain ⟨done, rest, r, fs3, hsplit, hrun, hwrote, hall, -⟩ := writeArtifacts_run hworld
      (exportDirs ctx.dataDir c.key).files (collect_distinct hcollect) hl2 m1
    cases hrun.symm.trans writing
    obtain rfl : artifacts = done := by simpa [hall rfl] using hsplit
    have hlocking : opened.Grows { opened with held := inode :: opened.held } :=
      Files.FileSystem.grows_of_entries rfl
    have hreleased : after.Grows (after.release inode) := Files.FileSystem.grows_of_entries rfl
    have hgrows : opened.Grows (after.release inode) :=
      (hlocking.trans hwrote.builds.toGrows).trans hreleased
    refine ⟨rfl, ⟨?_, ⟨inode, ?_, ?_⟩, artifacts, ?_, fun artifact text hmem => ?_⟩⟩
    · have hdir : made.isDirectory (exportDirs ctx.dataDir c.key).files = true :=
        Files.FileSystem.isDirectory_of_makeDirs (filesDir_named _ _) hname.not_idle
          hname.ne_dotdot hl prepared.directories
      exact Files.FileSystem.makeDirs_of_isDirectory (filesDir_named _ _) hname.not_idle
        hname.ne_dotdot
        (Files.FileSystem.isDirectory_grows (prepared.opened_builds.toGrows.trans hgrows) hdir)
    · exact hgrows.names (Files.FileSystem.names_of_opened prepared.lockFile)
    · rw [Files.FileSystem.release, hwrote.builds.held]
      simpa using free
    · have hagain := run_of_secrets (s := (m1, fs)) (t := (m1, after.release inode))
        (collect_reads c) rfl
      rwa [hcollect] at hagain
    · have hsame : (after.release inode).entries = after.entries := rfl
      exact (Files.FileSystem.readFile_congr hsame _).trans (hwrote.reads artifact text hmem)

private theorem hosted_of_run
    (h : (syncHost ctx.serviceUrl k c).run (besideFiles Memory.answer) s = (.ok (), t)) :
    t.2 = s.2 ∧ t.1.configs = s.1.configs ∧ t.1.secrets = s.1.secrets ∧
      ∀ r, c.spec.bareMetalHostRef = some r → ∃ host, t.1.hosts.get? r.key = some host ∧
        (HostPatch.bootFrom host.spec (imageUrl ctx.serviceUrl k)).isEmpty = true := by
  unfold syncHost at h
  cases hreference : c.spec.bareMetalHostRef with
  | none =>
    rw [hreference] at h
    obtain rfl : s = t := congrArg Prod.snd h
    exact ⟨rfl, rfl, rfl, by simp⟩
  | some r =>
    rw [hreference] at h
    obtain ⟨patched, s1, hset, hend⟩ := run_bind_eq_ok h
    obtain rfl : s1 = t := congrArg Prod.snd hend
    obtain ⟨found, s2, hget, hset⟩ := run_bind_eq_ok hset
    obtain rfl : s = s2 := congrArg Prod.snd hget
    obtain rfl : s.1.hosts.get? r.key = found := Except.ok.inj (congrArg Prod.fst hget)
    cases hhost : s.1.hosts.get? r.key with
    | none => simp [hhost] at hset
    | some host =>
      simp only [hhost] at hset
      by_cases hempty : (HostPatch.bootFrom host.spec (imageUrl ctx.serviceUrl k)).isEmpty = true
      · rw [if_pos hempty] at hset
        obtain rfl : s = s1 := congrArg Prod.snd hset
        refine ⟨rfl, rfl, rfl, fun r' hr' => ⟨host, ?_, hempty⟩⟩
        rw [← Option.some.inj hr', hhost]
      · rw [if_neg hempty] at hset
        obtain ⟨u, s3, hnote, hset⟩ := run_bind_eq_ok hset
        obtain rfl : s = s3 := congrArg Prod.snd hnote
        obtain ⟨u', s4, hpatch, hset⟩ := run_bind_eq_ok hset
        obtain rfl : s4 = s1 := congrArg Prod.snd hset
        rw [run_store, besideFiles, answer_patchHost_self _ hhost] at hpatch
        obtain ⟨-, rfl⟩ := Prod.mk.inj hpatch
        refine ⟨rfl, rfl, rfl, fun r' hr' => ?_⟩
        obtain rfl := Option.some.inj hr'
        refine ⟨_, Table.get?_insert_self _ _ _, ?_⟩
        rw [applyTo_bootFrom]
        exact isEmpty_bootFrom_booting host.spec _

private theorem Exported.of_files (h : Exported ctx c s) (hfiles : t.2 = s.2)
    (hsecrets : t.1.secrets = s.1.secrets) : Exported ctx c t where
  directory := by
    rw [hfiles]
    exact h.directory
  lock := by
    rw [hfiles]
    exact h.lock
  texts := by
    obtain ⟨artifacts, hcollect, hreads⟩ := h.texts
    have hagain := run_of_secrets (collect_reads c) hsecrets
    rw [hcollect] at hagain
    rw [hfiles]
    exact ⟨artifacts, hagain, hreads⟩

private theorem living_of_run (hl : s.2.Linkless) (hstored : s.1.configs.get? k = some c)
    (halive : c.metadata.isDeleting = false) (hguarded : c.hasFinalizer = true)
    (h : (converge ctx k c).run (besideFiles Memory.answer) s = (.ok .settled, t)) :
    Steady ctx k t := by
  obtain ⟨exported, s1, hexport, h⟩ := run_bind_eq_ok h
  cases hrequeue : exported.isRequeue with
  | true =>
    rw [if_pos hrequeue] at h
    obtain rfl : exported = .settled := Except.ok.inj (congrArg Prod.fst h)
    simp [Outcome.isRequeue] at hrequeue
  | false =>
    rw [if_neg (by simp [hrequeue])] at h
    obtain rfl : exported = .settled := by simpa [Outcome.isRequeue] using hrequeue
    obtain ⟨hstore, hexported⟩ := exported_of_run hl hexport
    obtain ⟨u, s2, hsync, h⟩ := run_bind_eq_ok h
    obtain ⟨u', s3, hnote, h⟩ := run_bind_eq_ok h
    obtain rfl : s2 = s3 := congrArg Prod.snd hnote
    obtain rfl : s2 = t := congrArg Prod.snd h
    obtain ⟨hfiles, hconfigs, hsecrets, hhost⟩ := hosted_of_run hsync
    refine .living (c := c) ?_ halive hguarded (hexported.of_files hfiles hsecrets) hhost
    rw [hconfigs, hstore, hstored]

private theorem leaving_of_release (hkey : c.key = k) (hstored : s.1.configs.get? k = some c)
    (hdeleting : c.metadata.isDeleting = true) {step : LifecycleStep}
    (h : (releaseFinalizer c).run (besideFiles Memory.answer) s = (.ok step, t)) :
    step = .halt .settled ∧ Steady ctx k t := by
  obtain ⟨u, s1, hnote, h⟩ := run_bind_eq_ok h
  obtain rfl : s = s1 := congrArg Prod.snd hnote
  obtain ⟨u', s2, hpatch, h⟩ := run_bind_eq_ok h
  obtain ⟨hstep, hs2⟩ := Prod.mk.inj h
  obtain rfl : s2 = t := hs2
  refine ⟨(Except.ok.inj hstep).symm, ?_⟩
  have hpatched : s2 = ((s.1.answer (.patchFinalizers c.key c.metadata.resourceVersion
      (c.metadata.finalizerList.filter (· != ourFinalizer)))).2, s.2) :=
    (congrArg Prod.snd hpatch).symm
  rw [hkey, answer_patchFinalizers_self hstored fun _ => hdeleting] at hpatched
  by_cases hlist : c.metadata.finalizerList.filter (· != ourFinalizer) = []
  · refine .absent ?_
    rw [hpatched]
    simp [hlist]
  · have hleft : s2.1.configs.get? k = some (c.withFinalizers
        (some (c.metadata.finalizerList.filter (· != ourFinalizer)))
        (some (s.1.version + 1).repr)) := by
      rw [hpatched]
      simp only [if_neg hlist]
      exact Table.get?_insert_self _ _ _
    refine .leaving hleft hdeleting ?_
    simp [ClusterConfig.hasFinalizer, ClusterConfig.withFinalizers, ObjectMeta.finalizerList]

private def HasStore (m : Memory) (a : Memory × FileSystem) : Prop := a.1 = m

private def HasConfigs (m : Memory) (a : Memory × FileSystem) : Prop := a.1.configs = m.configs

private theorem hasConfigs_hosting {q : Request} (h : HasConfigs m s) (hq : q.Hosting) :
    HasConfigs m (besideFiles Memory.answer q s).2 := by
  cases q with
  | store call =>
    cases call with
    | patchHost key version patch => exact (configs_answer_patchHost s.1 key version patch).trans h
    | patchFinalizers key version finalizers => exact hq.elim
    | _ => exact h
  | file call => exact hq.elim
  | note notice => exact h

private theorem leaving_of_run (hkey : c.key = k) (hstored : s.1.configs.get? k = some c)
    (hdeleting : c.metadata.isDeleting = true) {step : LifecycleStep}
    (h : (terminate ctx.dataDir c).run (besideFiles Memory.answer) s = (.ok step, t))
    (hstep : step = .proceed ∨ step = .halt .settled) : step = .halt .settled ∧ Steady ctx k t := by
  unfold terminate at h
  cases hguarded : c.hasFinalizer with
  | false =>
    rw [if_pos (by simp [hguarded])] at h
    obtain ⟨hhalt, hs⟩ := Prod.mk.inj h
    obtain rfl : s = t := hs
    exact ⟨(Except.ok.inj hhalt).symm, .leaving hstored hdeleting hguarded⟩
  | true =>
    rw [if_neg (by simp [hguarded])] at h
    obtain ⟨removed, s1, hremove, h⟩ := run_bind_eq_ok h
    have hs1 : s1.1 = s.1 := by
      have hkept : HasStore s.1 ((removeExport ctx.dataDir c.key).run
          (besideFiles Memory.answer) s).2 := by
        refine (removeExport_only ctx.dataDir c.key).run_inv ?_ rfl
        rintro a q ha hq
        cases hq <;> exact ha
      rwa [hremove] at hkept
    cases hrequeue : removed.isRequeue with
    | true =>
      rw [if_pos hrequeue] at h
      obtain rfl : .halt removed = step := Except.ok.inj (congrArg Prod.fst h)
      rcases hstep with hstep | hstep
      · cases hstep
      · cases hstep
        simp [Outcome.isRequeue] at hrequeue
    | false =>
      rw [if_neg (by simp [hrequeue])] at h
      obtain ⟨u, s2, hrelease, h⟩ := run_bind_eq_ok h
      have hs2 : s2.1.configs = s1.1.configs := by
        have hkept : HasConfigs s1.1 ((releaseHost c).run (besideFiles Memory.answer) s1).2 := by
          refine (releaseHost_only c).run_inv ?_ rfl
          rintro a q ha ⟨hq, -⟩
          exact hasConfigs_hosting ha hq
        rwa [hrelease] at hkept
      refine leaving_of_release hkey ?_ hdeleting h
      rw [hs2, hs1, hstored]

/-- Whatever a reconcile settled, it leaves in order. -/
theorem steady_of_settled (hkeyed : s.1.Keyed) (hlinkless : s.2.Linkless)
    (h : reconciled ctx k s = (.ok .settled, t)) : Steady ctx k t := by
  obtain ⟨u, s1, hnote, h⟩ := run_bind_eq_ok h
  obtain rfl : s = s1 := congrArg Prod.snd hnote
  obtain ⟨found, s2, hget, h⟩ := run_bind_eq_ok h
  obtain rfl : s = s2 := congrArg Prod.snd hget
  obtain rfl : s.1.configs.get? k = found := Except.ok.inj (congrArg Prod.fst hget)
  cases hstored : s.1.configs.get? k with
  | none =>
    simp only [hstored] at h
    obtain rfl : s = t := congrArg Prod.snd h
    exact .absent hstored
  | some c =>
    simp only [hstored] at h
    obtain ⟨step, s3, hstep, h⟩ := run_bind_eq_ok h
    have hkey : c.key = k := hkeyed k c hstored
    cases hdeleting : c.metadata.isDeleting with
    | false =>
      rw [lifecycleStep, if_neg (by simp [hdeleting]), ensureFinalizer] at hstep
      cases hguarded : c.hasFinalizer with
      | false =>
        rw [if_neg (by simp [hguarded])] at hstep
        obtain ⟨u', s4, -, hstep⟩ := run_bind_eq_ok hstep
        obtain ⟨u'', s5, -, hstep⟩ := run_bind_eq_ok hstep
        -- A reconcile that has only guarded the config asks for another one.
        obtain rfl : .halt .requeueNow = step := Except.ok.inj (congrArg Prod.fst hstep)
        cases h
      | true =>
        rw [if_pos hguarded] at hstep
        obtain rfl : .proceed = step := Except.ok.inj (congrArg Prod.fst hstep)
        obtain rfl : s = s3 := congrArg Prod.snd hstep
        exact living_of_run hlinkless hstored hdeleting hguarded h
    | true =>
      rw [lifecycleStep, if_pos hdeleting] at hstep
      have hcame : step = .proceed ∨ step = .halt .settled := by
        cases step with
        | proceed => exact .inl rfl
        | halt outcome =>
          obtain rfl : outcome = .settled := Except.ok.inj (congrArg Prod.fst h)
          exact .inr rfl
      obtain ⟨rfl, hsteady⟩ := leaving_of_run hkey hstored hdeleting hstep hcame
      obtain rfl : s3 = t := congrArg Prod.snd h
      exact hsteady

end Settled

/-- A reconcile that has settled is at rest. In a cluster whose configs stand under their own keys,
as they do wherever writes lead to, and in a tree without links: if a reconcile settles, another one
after it settles too, patches nothing and writes nothing, and leaves the cluster with all its
versions and counts, the tree and the locks exactly as they were. -/
theorem reconciled_again {ctx : ReconcileContext} {k : ObjectKey} {s t : Memory × FileSystem}
    (hkeyed : s.1.Keyed) (hlinkless : s.2.Linkless)
    (h : reconciled ctx k s = (.ok .settled, t)) :
    reconciled ctx k t = (.ok .settled, t) ∧
      ∀ e ∈ (reconcile ctx k).history (besideFiles Memory.answer) t, Unchanging t e := by
  have hstill : Still t (reconcile ctx k) t (.ok .settled) t :=
    still_reconcile (steady_of_settled hkeyed hlinkless h)
  obtain ⟨hevents, hresult, hstate⟩ := (hstill []).history
  refine ⟨Prod.ext hresult hstate, fun e he => ?_⟩
  obtain ⟨before, after, hsplit⟩ := List.append_of_mem he
  exact hevents before e after hsplit

private def restingConfig : ClusterConfig where
  metadata := { name := some "site", space := some "edge", finalizers := some [ourFinalizer] }
  spec := {
    relocation := { domain := "example.com", pullSecretRef := some ⟨"pull", "edge"⟩ }
    bareMetalHostRef := some ⟨"metal", "edge"⟩ }

private def restingState : Memory × FileSystem where
  fst := {
    configs := Table.empty.insert ⟨"edge", "site"⟩ restingConfig
    hosts := Table.empty.insert ⟨"edge", "metal"⟩ ⟨{}, {}⟩
    secrets := Table.empty.insert ⟨"edge", "pull"⟩ {} }
  snd := { entries := Table.empty.insert ["data"] (.directory 0o755) }

/-- An export and a host that boots, done again. -/
theorem reconciled_again_exported :
    (reconciled sampleContext ⟨"edge", "site"⟩ restingState).1 = .ok .settled ∧
      (reconciled sampleContext ⟨"edge", "site"⟩ restingState).2 ≠ restingState ∧
      reconciled sampleContext ⟨"edge", "site"⟩
          (reconciled sampleContext ⟨"edge", "site"⟩ restingState).2 =
        (.ok .settled, (reconciled sampleContext ⟨"edge", "site"⟩ restingState).2) := by
  have hkeyed : restingState.1.Keyed := by
    intro k c hget
    by_cases hk : k = ⟨"edge", "site"⟩
    · subst hk
      cases hget
      rfl
    · have hnone : restingState.1.configs.get? k = none := by
        rw [restingState, Table.get?_insert_of_ne _ _ hk]
        rfl
      rw [hnone] at hget
      cases hget
  have hempty : ({} : FileSystem).Linkless := fun _ _ => nofun
  have hlinkless : restingState.2.Linkless :=
    Files.FileSystem.linkless_place hempty (by simp) ["data"]
  have hsettled : (reconciled sampleContext ⟨"edge", "site"⟩ restingState).1 = .ok .settled := rfl
  have hfirst : reconciled sampleContext ⟨"edge", "site"⟩ restingState =
      (.ok .settled, (reconciled sampleContext ⟨"edge", "site"⟩ restingState).2) :=
    Prod.ext hsettled rfl
  refine ⟨hsettled, fun heq => ?_, (reconciled_again hkeyed hlinkless hfirst).1⟩
  have hversion := congrArg (fun s => s.1.version) heq
  exact absurd hversion (by decide)

end Relocation
