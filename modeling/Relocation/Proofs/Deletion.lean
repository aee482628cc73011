import Relocation.Proofs.Convergence
import Relocation.Proofs.Files.Clearing
import Relocation.Proofs.Orphans

/-!
The deletion of a config comes to its end. However often reconciles of a config that is to be
deleted were cut short by a store that refused a call or by others who held the lock of its export,
it is still stored with our finalizer, and the first undisturbed reconcile removes its export, frees
its host and releases it, as if nothing had failed (`deleted_after_interruptions`).
-/

set_option autoImplicit false

namespace Relocation

open Files (FileSystem Location Removal)
open Files.FileSystem (SameBeside Listing)
open Program Store

def foreignFinalizers (c : ClusterConfig) : List String :=
  c.metadata.finalizerList.filter (· != ourFinalizer)

namespace Store.Memory

/-- The cluster once the host of a config boots no image. -/
def hostFreed (m : Memory) (c : ClusterConfig) : Memory :=
  match c.spec.bareMetalHostRef with
  | none => m
  | some r =>
    match m.hosts.get? r.key with
    | none => m
    | some h =>
      if h.spec.image.isNone then m
      else
        { m with
          hosts := m.hosts.insert r.key
            ⟨stamped h.metadata (m.version + 1), { h.spec with image := none }⟩
          version := m.version + 1
          hostPatches := m.hostPatches + 1 }

/-- The cluster once our finalizer was taken away from a config that is to be deleted. -/
def released (m : Memory) (k : ObjectKey) (c : ClusterConfig) : Memory :=
  { m with
    configs := if foreignFinalizers c = [] then m.configs.erase k
      else m.configs.insert k
        (c.withFinalizers (some (foreignFinalizers c)) (some (m.version + 1).repr))
    version := m.version + 1
    configPatches := m.configPatches + 1 }

section HostFreed

variable {m : Memory} {c : ClusterConfig} {r : HostReference}

theorem hostFreed_some {h : Host} (hr : c.spec.bareMetalHostRef = some r)
    (hget : m.hosts.get? r.key = some h) (himage : h.spec.image ≠ none) :
    m.hostFreed c = { m with
      hosts := m.hosts.insert r.key
        ⟨stamped h.metadata (m.version + 1), { h.spec with image := none }⟩
      version := m.version + 1
      hostPatches := m.hostPatches + 1 } := by
  simp [hostFreed, hr, hget, himage]

theorem hostFreed_of_clear (h : ∀ r host, c.spec.bareMetalHostRef = some r →
    m.hosts.get? r.key = some host → host.spec.image = none) : m.hostFreed c = m := by
  unfold hostFreed
  cases hr : c.spec.bareMetalHostRef with
  | none => rfl
  | some r =>
    cases hget : m.hosts.get? r.key with
    | none => simp only [hget]
    | some host => simp [hget, h r host hr hget]

theorem hostFreed_cases (m : Memory) (c : ClusterConfig) :
    m.hostFreed c = m ∨ ∃ r host, c.spec.bareMetalHostRef = some r ∧
      m.hosts.get? r.key = some host ∧ host.spec.image ≠ none := by
  unfold hostFreed
  cases hr : c.spec.bareMetalHostRef with
  | none => exact .inl rfl
  | some r =>
    cases hget : m.hosts.get? r.key with
    | none => exact .inl (by simp only [hget])
    | some host =>
      by_cases himage : host.spec.image = none
      · exact .inl (by simp [hget, himage])
      · exact .inr ⟨r, host, rfl, hget, himage⟩

theorem hostFreed_configs (m : Memory) (c : ClusterConfig) :
    (m.hostFreed c).configs = m.configs := by
  rcases hostFreed_cases m c with heq | ⟨r, host, hr, hget, himage⟩
  · rw [heq]
  · rw [hostFreed_some hr hget himage]

theorem hostFreed_secrets (m : Memory) (c : ClusterConfig) :
    (m.hostFreed c).secrets = m.secrets := by
  rcases hostFreed_cases m c with heq | ⟨r, host, hr, hget, himage⟩
  · rw [heq]
  · rw [hostFreed_some hr hget himage]

theorem hostFreed_spec (m : Memory) (hr : c.spec.bareMetalHostRef = some r) :
    ((m.hostFreed c).hosts.get? r.key).map Host.spec =
      (m.hosts.get? r.key).map fun h => { h.spec with image := none } := by
  cases hget : m.hosts.get? r.key with
  | none =>
    have hclear : m.hostFreed c = m := hostFreed_of_clear fun r' host hr' hget' => by
      obtain rfl : r = r' := Option.some.inj (hr.symm.trans hr')
      rw [hget] at hget'
      cases hget'
    rw [hclear, hget]
    rfl
  | some h =>
    by_cases himage : h.spec.image = none
    · have hclear : m.hostFreed c = m := hostFreed_of_clear fun r' host hr' hget' => by
        obtain rfl : r = r' := Option.some.inj (hr.symm.trans hr')
        obtain rfl : h = host := Option.some.inj (hget.symm.trans hget')
        exact himage
      rw [hclear, hget, Option.map_some, Option.map_some, ← himage]
    · rw [hostFreed_some hr hget himage, Table.get?_insert_self]
      rfl

theorem hostFreed_elsewhere (m : Memory) (c : ClusterConfig) {key : ObjectKey}
    (hne : ∀ r, c.spec.bareMetalHostRef = some r → key ≠ r.key) :
    (m.hostFreed c).hosts.get? key = m.hosts.get? key := by
  rcases hostFreed_cases m c with heq | ⟨r, host, hr, hget, himage⟩
  · rw [heq]
  · rw [hostFreed_some hr hget himage]
    exact Table.get?_insert_of_ne _ _ (hne r hr)

theorem hostFreed_hostFreed (m : Memory) (c : ClusterConfig) :
    (m.hostFreed c).hostFreed c = m.hostFreed c := by
  refine hostFreed_of_clear fun r host hr hget => ?_
  have hspec := hostFreed_spec m hr
  rw [hget, Option.map_some] at hspec
  cases hold : m.hosts.get? r.key with
  | none =>
    rw [hold] at hspec
    cases hspec
  | some h =>
    rw [hold] at hspec
    rw [Option.some.inj hspec]

end HostFreed

end Store.Memory

/-- A config that is to be deleted and is guarded by our finalizer, in a tree from which its export
can be removed. -/
structure Doomed (ctx : ReconcileContext) (k : ObjectKey) (c : ClusterConfig)
    (s : Memory × FileSystem) : Prop where
  stored : s.1.configs.get? k = some c
  keyed : c.key = k
  deleting : c.metadata.isDeleting = true
  guarded : c.hasFinalizer = true
  site : RemovalSite ctx.dataDir k s.2

/-- The surroundings of a reconcile that may be cut short: a store that may refuse any call, and
others who open, take and give back the lock of the export. -/
def interruption (ctx : ReconcileContext) (k : ObjectKey) :
    Surroundings (Memory × FileSystem) where
  others s t := s.1 = t.1 ∧ Contention (ctx.lockPath k) s.2 t.2
  answers := Answered
  allowed _ _ _ _ := True

/-- The states after any number of reconciles that were cut short. -/
inductive CutShort (ctx : ReconcileContext) (k : ObjectKey) (s : Memory × FileSystem) :
    Memory × FileSystem → Prop
  | none : CutShort ctx k s s
  | reconcile {t u : Memory × FileSystem} {r : Except Error Outcome} : CutShort ctx k s t →
      (reconcile ctx k).Course (interruption ctx k) t r u → r ≠ .ok .settled → CutShort ctx k s u
  | contention {t : Memory × FileSystem} {fs : FileSystem} : CutShort ctx k s t →
      Contention (ctx.lockPath k) t.2 fs → CutShort ctx k s (t.1, fs)

/-- A deletion that has not come to its end: the host may be freed, and some of the export may be
gone. -/
structure Pending (ctx : ReconcileContext) (k : ObjectKey) (c : ClusterConfig)
    (s t : Memory × FileSystem) : Prop where
  store : t.1 = s.1 ∨ t.1 = s.1.hostFreed c
  site : RemovalSite ctx.dataDir k t.2
  beside : SameBeside (exportPlace ctx.dataDir k) s.2 t.2

/-- What is left of a config once its deletion came to its end: its export is gone, the tree is
elsewhere as it was, its host boots no image, and it is stored with the finalizers of others, if it
has any. -/
structure Deleted (ctx : ReconcileContext) (k : ObjectKey) (c : ClusterConfig)
    (s u : Memory × FileSystem) : Prop where
  tree : ∀ l, u.2.entries.get? l =
    if exportPlace ctx.dataDir k <+: l then none else s.2.entries.get? l
  path : u.2.stat (exportDirs ctx.dataDir k).lock = .error .notFound
  host : ∀ r, c.spec.bareMetalHostRef = some r → (u.1.hosts.get? r.key).map Host.spec =
    (s.1.hosts.get? r.key).map fun h => { h.spec with image := none }
  hosts : ∀ key, (∀ r, c.spec.bareMetalHostRef = some r → key ≠ r.key) →
    u.1.hosts.get? key = s.1.hosts.get? key
  removed : u.1.configs.get? k = none ↔ foreignFinalizers c = []
  config : ∀ c', u.1.configs.get? k = some c' →
    ∃ version, c' = c.withFinalizers (some (foreignFinalizers c)) version
  configs : ∀ key, key ≠ k → u.1.configs.get? key = s.1.configs.get? key
  secrets : u.1.secrets = s.1.secrets

section Pending

variable {ctx : ReconcileContext} {k : ObjectKey} {c : ClusterConfig} {s t u : Memory × FileSystem}
  {α : Type}

theorem Doomed.pending (h : Doomed ctx k c s) : Pending ctx k c s s :=
  ⟨.inl rfl, h.site, .refl _ _⟩

theorem Pending.configs (h : Pending ctx k c s t) : t.1.configs = s.1.configs := by
  rcases h.store with heq | heq
  · rw [heq]
  · rw [heq, Memory.hostFreed_configs]

theorem Pending.hostFreed (h : Pending ctx k c s t) : t.1.hostFreed c = s.1.hostFreed c := by
  rcases h.store with heq | heq
  · rw [heq]
  · rw [heq, Memory.hostFreed_hostFreed]

theorem Pending.file (h : Pending ctx k c s t) {call : FileCall}
    (hcall : Clears ctx.dataDir k call) : Pending ctx k c s (t.1, (t.2.answer call).2) :=
  ⟨h.store, (h.site.answer hcall).1, h.beside.trans (h.site.answer hcall).2⟩

theorem Pending.contention (h : Pending ctx k c s t) {fs : FileSystem}
    (hc : Contention (ctx.lockPath k) t.2 fs) : Pending ctx k c s (t.1, fs) := by
  induction hc with
  | none => exact h
  | openLock _ ih => exact ih.file .openLock
  | locks held _ ih => exact ⟨ih.store, ih.site.of_entries rfl, ih.beside⟩

private theorem Pending.others (h : Pending ctx k c s t)
    (ho : (interruption ctx k).others t u) : Pending ctx k c s u := by
  have hu : u = (t.1, u.2) := Prod.ext ho.1.symm rfl
  rw [hu]
  exact h.contention ho.2

private def Clearing (dataDir : Path) (k : ObjectKey) : Request → Prop
  | .store _ => False
  | .file call => Clears dataDir k call
  | .note _ => True

private theorem Pending.clearing (h : Pending ctx k c s t) {q : Request} {reply : q.Reply}
    (hq : Clearing ctx.dataDir k q) (hanswer : Answered t q reply u) :
    Pending ctx k c s u ∧ u.1 = t.1 := by
  cases hanswer with
  | store call => exact hq.elim
  | refused call e => exact hq.elim
  | file call => exact ⟨h.file hq, rfl⟩
  | note notice => exact ⟨h, rfl⟩

private theorem carried_pending :
    Carried (interruption ctx k) (Clearing ctx.dataDir k) (Pending ctx k c s) where
  kept := Pending.others
  step ha hq hanswer := ⟨trivial, (ha.clearing hq hanswer).1⟩

private theorem carried_unchanged {m : Memory} :
    Carried (interruption ctx k) (Clearing ctx.dataDir k)
      fun t => Pending ctx k c s t ∧ t.1 = m where
  kept ha ho := ⟨ha.1.others ho, ho.1.symm.trans ha.2⟩
  step ha hq hanswer :=
    have hafter := ha.1.clearing hq hanswer
    ⟨trivial, hafter.1, hafter.2.trans ha.2⟩

private theorem pending_removeTree (h : Pending ctx k c s t) :
    (removeTree (exportDirs ctx.dataDir k).lock).Keeps (interruption ctx k)
      (fun _ => Pending ctx k c s) t := by
  intro a ha reply b hb
  have hpending := h.others ha
  refine ⟨trivial, ?_⟩
  cases hb with
  | @file m fs call =>
    have hafter : Pending ctx k c s (m, fs) := hpending
    cases hplan : fs.planRemoval (exportDirs ctx.dataDir k).lock with
    | error e =>
      simp only [FileSystem.answer, hplan]
      exact hafter
    | ok steps =>
      have hsteps := hafter.site.clears_of_plan hplan
      simp only [FileSystem.answer, hplan]
      exact carried_pending.only (removeAll_only hsteps) hafter

private theorem pending_removeExport (h : Pending ctx k c s t) :
    (removeExport ctx.dataDir k).Keeps (interruption ctx k) (fun _ => Pending ctx k c s) t := by
  refine carried_pending.ask h Clears.stat fun _ found u _ _ hu => ?_
  cases found with
  | error e =>
    dsimp only [bind_def, Program.bind]
    split
    · exact hu
    · exact hu
  | ok _ =>
    refine (keeps_bind (f := lockedOutcome k)).2 ?_
    refine (keeps_withWriteLock (fun _ => Pending ctx k c s) hu Pending.others
      (fun hr hab => hr.others hab) ?_ ?_ ?_).mono ?_
    · rintro a q reply b ha (rfl | ⟨inode, rfl⟩) hanswer
      · exact carried_pending.step (q := .file _) ha Clears.openLock hanswer
      · exact carried_pending.step (q := .file _) ha (Clears.tryLock inode) hanswer
    · intro r a inode reply b ha hanswer
      exact carried_pending.step (q := .file _) ha (Clears.release inode) hanswer
    · exact fun v hv => carried_pending.ask hv trivial fun _ _ _ _ _ hw => pending_removeTree hw
    · rintro (e | _ | a) v hv
      · exact hv.elim id id
      · exact carried_pending.ask hv trivial fun _ _ _ _ _ hw => hw
      · exact hv

private theorem pending_patchHost {r : HostReference} {host : Host} (h : Pending ctx k c s t)
    (hr : c.spec.bareMetalHostRef = some r) (hget : t.1.hosts.get? r.key = some host)
    (himage : host.spec.image ≠ none) :
    Pending ctx k c s ((t.1.answer
      (.patchHost r.key host.metadata.resourceVersion { image := .clear })).2, t.2) := by
  have hpatched : (t.1.answer
      (.patchHost r.key host.metadata.resourceVersion { image := .clear })).2 =
        t.1.hostFreed c := by
    rw [answer_patchHost_self _ hget, Memory.hostFreed_some hr hget himage]
    rfl
  rw [hpatched, h.hostFreed]
  exact ⟨.inr rfl, h.site, h.beside⟩

private theorem pending_clearImage {r : HostReference} (hr : c.spec.bareMetalHostRef = some r)
    (h : Pending ctx k c s t) :
    (clearImage r).Keeps (interruption ctx k) (fun _ => Pending ctx k c s) t := by
  intro a ha reply b hb
  have hpending := h.others ha
  refine ⟨trivial, ?_⟩
  cases hb with
  | refused call e => exact hpending
  | @store m fs call =>
    have hread : Pending ctx k c s (m, fs) := hpending
    cases hget : m.hosts.get? r.key with
    | none =>
      simp only [Memory.answer, hget]
      exact carried_pending.ask hread trivial fun _ _ _ _ _ hu => hu
    | some host =>
      by_cases himage : host.spec.image = none
      · have hclear : host.spec.image.isNone = true := by simp [himage]
        simp only [Memory.answer, hget, bind_def, Program.bind, hclear, if_true]
        exact hread
      · have hset : ¬host.spec.image.isNone = true := by simp [himage]
        simp only [Memory.answer, hget, bind_def, Program.bind, hset]
        refine carried_unchanged.ask ⟨hread, rfl⟩ trivial fun _ _ u _ _ hu => ?_
        intro a ha reply b hb
        obtain ⟨hlater, hsame⟩ := carried_unchanged.kept hu ha
        have hstays : a.1.hosts.get? r.key = some host := by rw [hsame, hget]
        refine ⟨trivial, ?_⟩
        cases hb with
        | refused call e => exact hlater
        | @store m' fs' call =>
          have hpatched := pending_patchHost hlater hr hstays himage
          generalize (m'.answer (.patchHost r.key host.metadata.resourceVersion
            { image := .clear })).1 = reply
          cases reply <;> exact hpatched

private theorem pending_releaseHost (h : Pending ctx k c s t) :
    (releaseHost c).Keeps (interruption ctx k) (fun _ => Pending ctx k c s) t := by
  unfold releaseHost
  cases hr : c.spec.bareMetalHostRef with
  | none => exact h
  | some r =>
    refine keeps_bind.2 ((pending_clearImage hr h).mono ?_)
    rintro (e | cleanup) u hu
    · exact hu
    · cases cleanup with
      | missing => exact carried_pending.ask hu trivial fun _ _ _ _ _ hv => hv
      | cleared => exact hu
      | alreadyClear => exact hu

private theorem pending_releaseFinalizer (hd : Doomed ctx k c s) (h : Pending ctx k c s t) :
    (releaseFinalizer c).Keeps (interruption ctx k)
      (fun r u => r ≠ .ok .proceed ∧ (r ≠ .ok (.halt .settled) → Pending ctx k c s u)) t := by
  refine carried_pending.ask h trivial fun _ _ u _ _ hu => ?_
  intro a ha reply b hb
  have hlater := hu.others ha
  refine ⟨trivial, ?_⟩
  cases hb with
  | refused call e => exact ⟨nofun, fun _ => hlater⟩
  | @store m fs call =>
    have hget : m.configs.get? c.key = some c := by
      rw [hd.keyed, show m.configs = s.1.configs from hlater.configs]
      exact hd.stored
    rw [answer_patchFinalizers_self hget fun _ => hd.deleting]
    exact ⟨nofun, fun hne => absurd rfl hne⟩

private theorem pending_terminate (hd : Doomed ctx k c s) (h : Pending ctx k c s t) :
    (terminate ctx.dataDir c).Keeps (interruption ctx k)
      (fun r u => r ≠ .ok .proceed ∧ (r ≠ .ok (.halt .settled) → Pending ctx k c s u)) t := by
  simp only [terminate, hd.guarded, hd.keyed]
  refine keeps_bind.2 ((pending_removeExport h).mono ?_)
  rintro (e | removed) u hu
  · exact ⟨nofun, fun _ => hu⟩
  · dsimp only [Then]
    split
    · exact ⟨nofun, fun _ => hu⟩
    · refine keeps_bind.2 ((pending_releaseHost hu).mono ?_)
      rintro (e | _) v hv
      · exact ⟨nofun, fun _ => hv⟩
      · exact pending_releaseFinalizer hd hv

private theorem pending_reconcile (hd : Doomed ctx k c s) (h : Pending ctx k c s t) :
    (reconcile ctx k).Keeps (interruption ctx k)
      (fun r u => r ≠ .ok .settled → Pending ctx k c s u) t := by
  refine carried_pending.ask h trivial fun _ _ u _ _ hu => ?_
  intro a ha reply b hb
  have hlater := hu.others ha
  refine ⟨trivial, ?_⟩
  cases hb with
  | refused call e => exact fun _ => hlater
  | @store m fs call =>
    have hget : m.configs.get? k = some c := by
      rw [show m.configs = s.1.configs from hlater.configs]
      exact hd.stored
    have hstep : lifecycleStep ctx.dataDir c = terminate ctx.dataDir c := if_pos hd.deleting
    simp only [Memory.answer, hget, Program.bind, hstep]
    refine keeps_bind.2 ((pending_terminate hd hlater).mono ?_)
    rintro (e | step) v ⟨hhalt, hv⟩
    · exact fun _ => hv (by simp)
    · cases step with
      | proceed => exact absurd rfl hhalt
      | halt outcome => exact fun hne => hv fun heq => hne (by cases heq; rfl)

theorem CutShort.pending (hd : Doomed ctx k c s) (h : CutShort ctx k s t) :
    Pending ctx k c s t := by
  induction h with
  | none => exact hd.pending
  | reconcile _ hcourse hcut ih => exact (pending_reconcile hd ih).course hcourse hcut
  | contention _ hc ih => exact ih.contention hc

end Pending

section Undisturbed

variable {ctx : ReconcileContext} {dataDir : Path} {k : ObjectKey} {c : ClusterConfig}
  {s t : Memory × FileSystem} {m : Memory} {fs fs' : FileSystem}

private theorem removeAll_next {step : Removal} {rest : List Removal}
    (h : fs.remove step = .ok fs') :
    (removeAll (step :: rest)).run (besideFiles Memory.answer) (m, fs) =
      (removeAll rest).run (besideFiles Memory.answer) (m, fs') := by
  have hanswer : (tryFile (.remove step)).run (besideFiles Memory.answer) (m, fs) =
      (.ok (.ok ()), m, fs') := by
    rw [run_tryFile, besideFiles, FileSystem.answer, h]
    rfl
  exact run_bind_ok hanswer

private theorem removeAll_listing {list : List (Location × Files.Entry)}
    (hs : RemovalSite dataDir k fs) (hdir : fs.HasDir (exportPlace dataDir k))
    (hl : fs.Listing (exportPlace dataDir k) list) :
    (removeAll (list.map FileSystem.removalOf ++
        [.removeDirPath (exportDirs dataDir k).lock])).run (besideFiles Memory.answer) (m, fs) =
      (.ok (), m, fs.without (exportPlace dataDir k)) := by
  -- On what is still listed: the tree stays a site, and the rest is a listing of what is left.
  induction list generalizing fs with
  | nil =>
    obtain ⟨mode, hget⟩ := hdir
    have hbuilt : fs.Built [] (dataDir.stem ++ k.place) := by
      refine hs.whole.resolve_right fun hgone => ?_
      rw [hgone _ (List.prefix_refl _)] at hget
      cases hget
    have hlast : fs.remove (.removeDirPath (exportDirs dataDir k).lock) =
        .ok (fs.without (exportPlace dataDir k)) := by
      rw [hs.removeDirPath_built hbuilt]
      exact hl.remove_last ⟨mode, hget⟩
    exact removeAll_next hlast
  | cons e rest ih =>
    obtain ⟨hremoved, hrest⟩ := hl.remove_head
    obtain ⟨-, hbelow, hne⟩ := hl.stands e List.mem_cons_self
    have hafter : (fs.answer (.remove (FileSystem.removalOf e))).2 =
        { fs with entries := fs.entries.erase e.1 } := by
      simp only [FileSystem.answer, hremoved]
      rfl
    have hs' : RemovalSite dataDir k { fs with entries := fs.entries.erase e.1 } :=
      hafter ▸ (hs.answer (.inside hbelow hne)).1
    have hdir' : FileSystem.HasDir { fs with entries := fs.entries.erase e.1 }
        (exportPlace dataDir k) := by
      obtain ⟨mode, hget⟩ := hdir
      exact ⟨mode, (Table.get?_erase_of_ne _ hne.symm).trans hget⟩
    rw [List.map_cons, List.cons_append, removeAll_next hremoved, ih hs' hdir' hrest,
      FileSystem.without_erase hbelow]

private theorem removeTree_listing (hs : RemovalSite dataDir k fs)
    (hbuilt : fs.Built [] (dataDir.stem ++ k.place)) :
    (removeTree (exportDirs dataDir k).lock).run (besideFiles Memory.answer) (m, fs) =
      (.ok (), m, fs.without (exportPlace dataDir k)) := by
  have hplanned : (Program.file (.planRemoval (exportDirs dataDir k).lock)).run
      (besideFiles Memory.answer) (m, fs) =
        (.ok ((fs.below (exportPlace dataDir k)).map FileSystem.removalOf ++
          [.removeDirPath (exportDirs dataDir k).lock]), m, fs) := by
    rw [run_file, besideFiles, FileSystem.answer, hs.plan_built hbuilt]
    rfl
  have hdir : fs.HasDir (exportPlace dataDir k) := hs.hasDir_built hbuilt
  exact (run_bind_ok hplanned).trans
    (removeAll_listing hs hdir (FileSystem.listing_below fs (exportPlace dataDir k)))

private theorem removeExport_undisturbed (hs : RemovalSite dataDir k fs)
    (hfree : Unlocked dataDir k fs) :
    ∃ fs', (removeExport dataDir k).run (besideFiles Memory.answer) (m, fs) =
        (.ok .settled, m, fs') ∧ fs'.entries = (fs.without (exportPlace dataDir k)).entries := by
  -- The directory is there with all that leads to it, or there is nothing of it at all.
  by_cases hbuilt : fs.Built [] (dataDir.stem ++ k.place)
  · have hstat : (tryFile (.stat (exportDirs dataDir k).lock)).run (besideFiles Memory.answer)
        (m, fs) = (.ok (.ok ()), m, fs) := by
      rw [run_tryFile, besideFiles, FileSystem.answer, hs.stat_dir hbuilt]
    obtain ⟨inode, fs1, hopen, hbuilt1, hs1, hbeside, hunheld⟩ := hs.openLock_built hbuilt
    have hopened : besideFiles Memory.answer
        (.file (.openLock ((exportDirs dataDir k).lock.join lockFileName))) (m, fs) =
          (.ok inode, m, fs1) := by
      rw [besideFiles, hopen]
    have hlocked : besideFiles Memory.answer (.file (.tryLock inode)) (m, fs1) =
        (.ok true, m, { fs1 with held := inode :: fs1.held }) := by
      rw [besideFiles, FileSystem.answer_tryLock_free (hunheld hfree)]
    have hs2 : RemovalSite dataDir k { fs1 with held := inode :: fs1.held } := hs1.of_entries rfl
    have htree := removeTree_listing (m := m) hs2 hbuilt1
    have haction : (do
        Program.note (.filesRemoved k)
        removeTree (exportDirs dataDir k).lock : Program Unit).run (besideFiles Memory.answer)
          (m, { fs1 with held := inode :: fs1.held }) =
        (.ok (), m, FileSystem.without { fs1 with held := inode :: fs1.held }
          (exportPlace dataDir k)) := htree
    have hremoved := withWriteLock_run_of hopened hlocked haction
    refine ⟨_, (run_bind_ok hstat).trans (run_bind_ok hremoved), ?_⟩
    exact FileSystem.without_beside hbeside
  · have hgone := hs.whole.resolve_left hbuilt
    have hstat : (tryFile (.stat (exportDirs dataDir k).lock)).run (besideFiles Memory.answer)
        (m, fs) = (.ok (.error .notFound), m, fs) := by
      rw [run_tryFile, besideFiles, FileSystem.answer, hs.stat_gone hbuilt]
    refine ⟨fs, run_bind_ok hstat, Table.ext_get? fun l => ?_⟩
    rw [FileSystem.get?_without]
    split
    · rename_i hl
      exact hgone l hl
    · rfl

private theorem clearImage_undisturbed {r : HostReference} (hr : c.spec.bareMetalHostRef = some r)
    (m : Memory) (fs : FileSystem) :
    ∃ cleanup, (clearImage r).run (besideFiles Memory.answer) (m, fs) =
      (.ok cleanup, m.hostFreed c, fs) := by
  have hfound : (Program.store (.getHost r.key)).run (besideFiles Memory.answer) (m, fs) =
      (.ok (m.hosts.get? r.key), m, fs) := rfl
  cases hget : m.hosts.get? r.key with
  | none =>
    have hclear : m.hostFreed c = m := by simp [Memory.hostFreed, hr, hget]
    rw [hget] at hfound
    rw [hclear]
    exact ⟨.missing, run_bind_ok hfound⟩
  | some host =>
    rw [hget] at hfound
    by_cases himage : host.spec.image = none
    · have hclear : m.hostFreed c = m := by simp [Memory.hostFreed, hr, hget, himage]
      rw [hclear]
      refine ⟨.alreadyClear, (run_bind_ok hfound).trans ?_⟩
      simp only [himage, Option.isNone_none, if_true]
      rfl
    · have hpatched : (Program.store (.patchHost r.key host.metadata.resourceVersion
          { image := .clear })).run (besideFiles Memory.answer) (m, fs) =
            (.ok (), m.hostFreed c, fs) := by
        rw [run_store, besideFiles, answer_patchHost_self _ hget,
          Memory.hostFreed_some hr hget himage]
        rfl
      have hset : ¬host.spec.image.isNone = true := by simp [himage]
      refine ⟨.cleared, (run_bind_ok hfound).trans ?_⟩
      simp only [hset]
      exact run_bind_ok hpatched

theorem releaseHost_undisturbed (m : Memory) (c : ClusterConfig) (fs : FileSystem) :
    (releaseHost c).run (besideFiles Memory.answer) (m, fs) = (.ok (), m.hostFreed c, fs) := by
  unfold releaseHost
  cases hr : c.spec.bareMetalHostRef with
  | none =>
    rw [Memory.hostFreed, hr]
    rfl
  | some r =>
    obtain ⟨cleanup, hcleanup⟩ := clearImage_undisturbed hr m fs
    refine (run_bind_ok hcleanup).trans ?_
    cases cleanup <;> rfl

/-- An undisturbed reconcile of a pending deletion completes it. -/
theorem reconciled_pending (hd : Doomed ctx k c s) (h : Pending ctx k c s t)
    (hfree : Unlocked ctx.dataDir k t.2) :
    ∃ fs', reconciled ctx k t = (.ok .settled, (s.1.hostFreed c).released k c, fs') ∧
      fs'.entries = (s.2.without (exportPlace ctx.dataDir k)).entries := by
  obtain ⟨m, fs⟩ := t
  obtain ⟨fs', hremoved, hentries⟩ := removeExport_undisturbed (m := m) h.site hfree
  have hconfigs : m.configs = s.1.configs := h.configs
  have hfound : (Program.store (.getConfig k)).run (besideFiles Memory.answer) (m, fs) =
      (.ok (some c), m, fs) := by
    rw [run_store, besideFiles, Memory.answer, hconfigs, hd.stored]
  have hfreed : (releaseHost c).run (besideFiles Memory.answer) (m, fs') =
      (.ok (), s.1.hostFreed c, fs') := by
    rw [releaseHost_undisturbed, show m.hostFreed c = _ from h.hostFreed]
  have hstored : (s.1.hostFreed c).configs.get? k = some c := by
    rw [Memory.hostFreed_configs]
    exact hd.stored
  have hpatched : (Program.store (.patchFinalizers k c.metadata.resourceVersion
      (foreignFinalizers c))).run (besideFiles Memory.answer) (s.1.hostFreed c, fs') =
        (.ok (), (s.1.hostFreed c).released k c, fs') := by
    rw [run_store, besideFiles, answer_patchFinalizers_self hstored fun _ => hd.deleting]
    rfl
  have hreleased : (releaseFinalizer c).run (besideFiles Memory.answer) (s.1.hostFreed c, fs') =
      (.ok (.halt .settled), (s.1.hostFreed c).released k c, fs') := by
    have hnoted : (Program.note (.finalizerRemoved c.key)).run (besideFiles Memory.answer)
        (s.1.hostFreed c, fs') = (.ok (), s.1.hostFreed c, fs') := rfl
    refine (run_bind_ok hnoted).trans ?_
    rw [hd.keyed]
    exact run_bind_ok hpatched
  have hterminated : (terminate ctx.dataDir c).run (besideFiles Memory.answer) (m, fs) =
      (.ok (.halt .settled), (s.1.hostFreed c).released k c, fs') := by
    simp only [terminate, hd.guarded, hd.keyed]
    exact (run_bind_ok hremoved).trans ((run_bind_ok hfreed).trans hreleased)
  have hstep : (lifecycleStep ctx.dataDir c).run (besideFiles Memory.answer) (m, fs) =
      (.ok (.halt .settled), (s.1.hostFreed c).released k c, fs') := by
    rw [lifecycleStep, if_pos hd.deleting]
    exact hterminated
  have hnoted : (Program.note .reconcileStarted).run (besideFiles Memory.answer) (m, fs) =
      (.ok (), m, fs) := rfl
  refine ⟨fs', ?_, ?_⟩
  · exact (run_bind_ok hnoted).trans ((run_bind_ok hfound).trans (run_bind_ok hstep))
  · rw [hentries]
    exact FileSystem.without_beside h.beside

private theorem deleted_of_entries (hd : Doomed ctx k c s)
    (hentries : fs.entries = (s.2.without (exportPlace ctx.dataDir k)).entries) :
    Deleted ctx k c s ((s.1.hostFreed c).released k c, fs) where
  tree l := by
    rw [hentries]
    exact FileSystem.get?_without _ _ _
  path := by
    have hs : RemovalSite ctx.dataDir k fs := hd.site.without.of_entries hentries
    refine hs.stat_gone fun hbuilt => ?_
    obtain ⟨mode, hget⟩ := hs.hasDir_built hbuilt
    rw [hentries, FileSystem.get?_without, if_pos (List.prefix_refl _)] at hget
    cases hget
  host r hr := Memory.hostFreed_spec s.1 hr
  hosts key hne := Memory.hostFreed_elsewhere s.1 c hne
  removed := by
    by_cases hforeign : foreignFinalizers c = [] <;> simp [Memory.released, hforeign]
  config c' hget := by
    by_cases hforeign : foreignFinalizers c = []
    · simp [Memory.released, hforeign] at hget
    · simp only [Memory.released, if_neg hforeign, Table.get?_insert_self] at hget
      exact ⟨_, (Option.some.inj hget).symm⟩
  configs key hne := by
    rw [← Memory.hostFreed_configs s.1 c]
    by_cases hforeign : foreignFinalizers c = []
    · simp only [Memory.released, if_pos hforeign]
      exact Table.get?_erase_of_ne _ hne
    · simp only [Memory.released, if_neg hforeign]
      exact Table.get?_insert_of_ne _ _ hne
  secrets := Memory.hostFreed_secrets s.1 c

/-- However often reconciles of a config that is to be deleted were cut short, it is still stored
with our finalizer, and the first undisturbed one completes the deletion. It leaves the cluster,
down to its versions, and the tree as if it had been the first of all. -/
theorem deleted_after_interruptions (hd : Doomed ctx k c s) (hcut : CutShort ctx k s t) :
    t.1.configs.get? k = some c ∧ Guarded k t ∧
      (Unlocked ctx.dataDir k t.2 → ∃ u, reconciled ctx k t = (.ok .settled, u) ∧
        Deleted ctx k c s u ∧
        (Unlocked ctx.dataDir k s.2 → ∃ v, reconciled ctx k s = (.ok .settled, v) ∧
          u.1 = v.1 ∧ u.2.entries = v.2.entries)) := by
  have hpending := hcut.pending hd
  have hstored : t.1.configs.get? k = some c := by
    rw [hpending.configs]
    exact hd.stored
  refine ⟨hstored, ⟨c, hstored, hd.guarded⟩, fun hfree => ?_⟩
  obtain ⟨fs, hrun, hentries⟩ := reconciled_pending hd hpending hfree
  refine ⟨_, hrun, deleted_of_entries hd hentries, fun hfirst => ?_⟩
  obtain ⟨fs', hrun', hentries'⟩ := reconciled_pending hd hd.pending hfirst
  exact ⟨_, hrun', rfl, hentries.trans hentries'.symm⟩

private def leavingConfig : ClusterConfig where
  metadata := {
    name := some "site"
    space := some "edge"
    deletionTimestamp := some default
    finalizers := some ["example.com/backup", ourFinalizer, "example.com/audit"] }
  spec := { relocation := { domain := "example.com" }, bareMetalHostRef := some ⟨"metal", "edge"⟩ }

private def leavingState : Memory × FileSystem where
  fst := {
    configs := Table.empty.insert ⟨"edge", "site"⟩ leavingConfig
    hosts := Table.empty.insert ⟨"edge", "metal"⟩
      ⟨{}, { online := true, image := some { url := "http://images/edge/site.iso" } }⟩ }
  snd := {
    entries := .ofList [(["data"], .directory 0o755), (["data", "namespaces"], .directory 0o700),
      (["data", "namespaces", "edge"], .directory 0o700),
      (["data", "namespaces", "edge", "site"], .directory 0o700),
      (["data", "namespaces", "edge", "site", ".lock"], .file 0 0o600 ""),
      (["data", "namespaces", "edge", "site", "files"], .directory 0o700),
      (["data", "namespaces", "edge", "site", "files", "cluster-relocation.json"],
        .file 1 0o644 "\x7b\x7d")]
    nextInode := 2 }

private theorem built_leavingState : leavingState.2.Built []
    (sampleContext.dataDir.stem ++ (⟨"edge", "site"⟩ : ObjectKey).place) := by
  intro l hl
  have hl : l ∈ [["data"], ["data", "namespaces"], ["data", "namespaces", "edge"],
    ["data", "namespaces", "edge", "site"]] := hl
  simp only [List.mem_cons, List.not_mem_nil, or_false] at hl
  rcases hl with rfl | rfl | rfl | rfl <;> exact ⟨_, rfl⟩

private theorem doomed_leavingState :
    Doomed sampleContext ⟨"edge", "site"⟩ leavingConfig leavingState where
  stored := rfl
  keyed := rfl
  deleting := rfl
  guarded := by decide
  site :=
    { key := by decide
      short := by decide
      lockPath := rfl
      apart := exportPlace_apart (by decide)
      directories := fun l hl => .inr (built_leavingState l hl)
      whole := .inl built_leavingState
      lockFile := .inr ⟨_, _, _, rfl⟩ }

private def withoutHosts : World (Memory × FileSystem)
  | .store (.patchHost key _ _), s => (.error (.conflict "BareMetalHost" key.text), s)
  | q, s => besideFiles Memory.answer q s

private theorem answered_withoutHosts (a : Memory × FileSystem) (q : Request) :
    Answered a q (withoutHosts q a).1 (withoutHosts q a).2 := by
  cases q with
  | store call =>
    cases call with
    | patchHost key version patch => exact .refused _ _
    | _ => exact .store _
  | file call => exact .file call
  | note notice => exact .note notice

/-- A reconcile that removed the export, but was refused to patch the host. -/
theorem deleted_after_refused_patch :
    Doomed sampleContext ⟨"edge", "site"⟩ leavingConfig leavingState ∧
      Unlocked sampleContext.dataDir ⟨"edge", "site"⟩ leavingState.2 ∧
      ∃ t, CutShort sampleContext ⟨"edge", "site"⟩ leavingState t ∧
        Unlocked sampleContext.dataDir ⟨"edge", "site"⟩ t.2 ∧
        t.2.stat (exportDirs sampleContext.dataDir ⟨"edge", "site"⟩).lock = .error .notFound ∧
        Guarded ⟨"edge", "site"⟩ t ∧
        ∃ u, reconciled sampleContext ⟨"edge", "site"⟩ t = (.ok .settled, u) ∧
          Deleted sampleContext ⟨"edge", "site"⟩ leavingConfig leavingState u ∧
          ∃ v, reconciled sampleContext ⟨"edge", "site"⟩ leavingState = (.ok .settled, v) ∧
            u.1 = v.1 ∧ u.2.entries = v.2.entries := by
  have hcourse := course_run (w := interruption sampleContext ⟨"edge", "site"⟩)
    (fun _ => ⟨rfl, .none⟩) answered_withoutHosts (reconcile sampleContext ⟨"edge", "site"⟩)
    leavingState
  have hcut : CutShort sampleContext ⟨"edge", "site"⟩ leavingState _ :=
    .reconcile .none hcourse nofun
  have hfirst : Unlocked sampleContext.dataDir ⟨"edge", "site"⟩ leavingState.2 :=
    ⟨List.not_mem_nil, fun _ _ _ _ => List.not_mem_nil⟩
  have hfree : Unlocked sampleContext.dataDir ⟨"edge", "site"⟩
      ((reconcile sampleContext ⟨"edge", "site"⟩).run withoutHosts leavingState).2.2 :=
    ⟨List.not_mem_nil, fun _ _ _ _ => List.not_mem_nil⟩
  obtain ⟨-, hguarded, hlater⟩ := deleted_after_interruptions doomed_leavingState hcut
  obtain ⟨u, hrun, hdeleted, hsame⟩ := hlater hfree
  exact ⟨doomed_leavingState, hfirst, _, hcut, hfree, rfl, hguarded, u, hrun, hdeleted,
    hsame hfirst⟩

end Undisturbed

end Relocation
