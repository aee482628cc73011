import Relocation.Proofs.Guards
import Relocation.Store.Memory

/-!
The guards of export directories over any sequence of calls. Locks are taken and given back, work
is done under them, and configs are exported, removed and reconciled, one call after the other,
whatever is in the store and whichever operations on files fail. As long as every call is about keys
whose names are parts of paths, what is locked is what guards are out for (`CallsReach.sound`), so a
call reports contention exactly when a guard for its directory is out, and none is ever lost or left
behind (`locks_reported_exactly`).
-/

set_option autoImplicit false

namespace Relocation

open Files (FileSystem)
open Files.FileSystem
open Program Request Store

section Sequences

variable {dataDir : Path}

/-- The files, and the guards that are out: each for a key, with the number of the file that it
locks. -/
structure LockState where
  files : FileSystem
  guards : List (ObjectKey × Nat)

/-- Whether a guard for a key is out. -/
def LockState.Out (s : LockState) (k : ObjectKey) : Prop := k ∈ s.guards.map Prod.fst

/-- The calls that take a lock only for as long as they run, in a state of the world: work under a
lock that leaves all lock files alone, an export, a removal and a reconcile, of keys whose names are
parts of paths. -/
inductive LockUser {σ : Type} (dataDir : Path) (world : World σ) (s : σ) :
    (α : Type) → Program α → Prop
  | locked {α : Type} {k : ObjectKey} {action : Program α} (hk : k.Placeable)
      (calm : ∀ inode t, (tryWriteLock (exportDirs dataDir k).lock).run world s =
        (.ok (some inode), t) →
        ∀ e ∈ action.history world t, e.request.SparesLocks dataDir ObjectKey.Placeable) :
      LockUser dataDir world s (Option α) (withWriteLock (exportDirs dataDir k).lock action)
  | exported {c : ClusterConfig} (hk : c.key.Placeable) :
      LockUser dataDir world s Outcome (exportConfig dataDir c)
  | removed {k : ObjectKey} (hk : k.Placeable) :
      LockUser dataDir world s Outcome (removeExport dataDir k)
  | reconciled {k : ObjectKey} {serviceUrl : String}
      (keys : ∀ c t, world (.store (.getConfig k)) s = (.ok (some c), t) → c.key.Placeable) :
      LockUser dataDir world s Outcome (reconcile ⟨dataDir, serviceUrl⟩ k)

/-- One call on the locks below a data directory, from its beginning to its end: a lock is taken, or
not, or given back, or a call takes one for as long as it runs. Whatever is in the store, and
whichever operations on files fail, from one call to the next. -/
inductive Completed (dataDir : Path) (s : LockState) : LockState → Prop
  | acquired {τ : Type} {store : StoreBehaviour τ} {world : World (τ × FileSystem)} {a : τ}
      {k : ObjectKey} {inode : Nat} {t : τ × FileSystem} (hworld : Hindered store world)
      (hk : k.Placeable)
      (run : (tryWriteLock (exportDirs dataDir k).lock).run world (a, s.files) =
        (.ok (some inode), t)) :
      Completed dataDir s ⟨t.2, (k, inode) :: s.guards⟩
  | unacquired {τ : Type} {store : StoreBehaviour τ} {world : World (τ × FileSystem)} {a : τ}
      {k : ObjectKey} {r : Except Error (Option Nat)} {t : τ × FileSystem}
      (hworld : Hindered store world) (hk : k.Placeable)
      (run : (tryWriteLock (exportDirs dataDir k).lock).run world (a, s.files) = (r, t))
      (none : ∀ inode, r ≠ .ok (some inode)) :
      Completed dataDir s ⟨t.2, s.guards⟩
  | released {g : ObjectKey × Nat} (out : g ∈ s.guards) :
      Completed dataDir s ⟨(s.files.answer (.release g.2)).2, s.guards.erase g⟩
  | used {τ α : Type} {store : StoreBehaviour τ} {world : World (τ × FileSystem)} {a : τ}
      {p : Program α} (hworld : Hindered store world)
      (user : LockUser dataDir world (a, s.files) α p) :
      Completed dataDir s ⟨(p.run world (a, s.files)).2.2, s.guards⟩

/-- What calls come to, one after the other, from a tree without links in which every file has a
number of its own and nothing is locked. -/
inductive CallsReach (dataDir : Path) : LockState → Prop
  | start {fs : FileSystem} (tree : fs.IsTree) (numbered : fs.Numbered) (free : fs.held = []) :
      CallsReach dataDir ⟨fs, []⟩
  | call {s t : LockState} (before : CallsReach dataDir s) (completed : Completed dataDir s t) :
      CallsReach dataDir t

/-- What is true of the guards that are out: each is for a key of its own, and nothing else is
locked. -/
structure LockState.Sound (dataDir : Path) (s : LockState) : Prop where
  guarded : GuardsOut dataDir s.guards s.files.held s.files
  keys : ∀ g ∈ s.guards, g.1.Placeable
  distinct : (s.guards.map Prod.fst).Nodup
  held : s.files.held.Perm (s.guards.map Prod.snd)

theorem LockUser.guardsOut {τ α : Type} {store : StoreBehaviour τ} {world : World (τ × FileSystem)}
    {a : τ} {s : LockState} {p : Program α} (h : LockUser dataDir world (a, s.files) α p)
    (hworld : Hindered store world) (hs : s.Sound dataDir) :
    GuardsOut dataDir s.guards s.files.held (p.run world (a, s.files)).2.2 := by
  cases h with
  | locked hk calm =>
    refine guardsOut_withWriteLock hworld hk hs.guarded hs.held fun inode t htaken _ _ e he => ?_
    refine (calm inode t htaken e he).mono fun k hk => ?_
    obtain ⟨g, hg, rfl⟩ := List.mem_map.1 hk
    exact hs.keys g hg
  | exported hk => exact guardsOut_exportConfig hworld hs.held hk hs.guarded
  | removed hk => exact guardsOut_removeExport hworld hs.held hk hs.guarded
  | reconciled keys => exact guardsOut_reconcile hworld hs.held keys hs.guarded

theorem LockState.Sound.completed {s t : LockState} (hs : s.Sound dataDir)
    (h : Completed dataDir s t) : t.Sound dataDir := by
  cases h with
  | @acquired τ store world a k inode t hworld hk run =>
    cases lockAttempt (s := (a, s.files)) hworld hk hs.guarded hs.held with
    | failed run' => cases run.symm.trans run'
    | busy run' => cases run.symm.trans run'
    | taken run' opened free guarded =>
      cases run.symm.trans run'
      have hheld := guarded.held
      refine ⟨?_, List.forall_mem_cons.2 ⟨hk, hs.keys⟩, List.nodup_cons.2 ⟨free, hs.distinct⟩, ?_⟩
      · rw [hheld]
        exact guarded
      · rw [hheld]
        exact hs.held.cons inode
  | @unacquired τ store world a k r t hworld hk run none =>
    have hguarded : GuardsOut dataDir s.guards s.files.held t.2 := by
      cases lockAttempt (s := (a, s.files)) hworld hk hs.guarded hs.held with
      | failed run' unopened guarded =>
        cases run.symm.trans run'
        exact guarded
      | busy run' opened out guarded =>
        cases run.symm.trans run'
        exact guarded
      | @taken inode t' run' =>
        cases run.symm.trans run'
        exact absurd rfl (none inode)
    exact ⟨hguarded.held ▸ hguarded, hs.keys, hs.distinct, hguarded.held ▸ hs.held⟩
  | @released g out =>
    have hrest : (s.guards.erase g).Sublist s.guards := List.erase_sublist
    have hreleased := hs.guarded.relock (s.files.held.erase g.2)
    refine ⟨⟨hreleased.tree, hreleased.numbered, fun g' hg' => ?_, rfl⟩, fun g' hg' => ?_, ?_, ?_⟩
    · exact hreleased.placed g' (hrest.subset hg')
    · exact hs.keys g' (hrest.subset hg')
    · exact hs.distinct.sublist (hrest.map _)
    · -- The file of a guard need not be the one that was locked last.
      have hperm : s.files.held.Perm (g.2 :: (s.guards.erase g).map Prod.snd) :=
        hs.held.trans ((List.perm_cons_erase out).map Prod.snd)
      have herased := hperm.erase g.2
      rwa [List.erase_cons_head] at herased
  | used hworld user =>
    have hguarded := user.guardsOut hworld hs
    exact ⟨hguarded.held ▸ hguarded, hs.keys, hs.distinct, hguarded.held ▸ hs.held⟩

/-- The guards are sound whatever calls were made. -/
theorem CallsReach.sound {s : LockState} (h : CallsReach dataDir s) : s.Sound dataDir := by
  induction h with
  | start tree numbered free =>
    exact ⟨⟨tree, numbered, nofun, rfl⟩, nofun, List.nodup_nil, free ▸ List.Perm.nil⟩
  | call before completed ih => exact ih.completed completed

/-- What calls report of the lock of a key, and what becomes of work under it. -/
structure ReportsLock {τ : Type} (dataDir : Path) (s : LockState) (world : World (τ × FileSystem))
    (a : τ) (k : ObjectKey) : Prop where
  attempt : ((tryWriteLock (exportDirs dataDir k).lock).run world (a, s.files)).1 = .ok none ↔
    Openable world (exportDirs dataDir k).lock (a, s.files) ∧ s.Out k
  locked : ∀ {α : Type} (action : Program α),
    ((withWriteLock (exportDirs dataDir k).lock action).run world (a, s.files)).1 = .ok none ↔
      Openable world (exportDirs dataDir k).lock (a, s.files) ∧ s.Out k
  exported : ∀ c : ClusterConfig, c.key = k →
    (((exportConfig dataDir c).run world (a, s.files)).1 = .ok (.requeueAfter lockRetryDelay) ↔
      (∃ artifacts t u, (collect c).run world (a, s.files) = (.ok artifacts, t) ∧
        world (.file (.makeDirs (exportDirs dataDir k).files)) t = (.ok (), u) ∧
        Openable world (exportDirs dataDir k).lock u) ∧ s.Out k)
  removed : ((removeExport dataDir k).run world (a, s.files)).1 =
      .ok (.requeueAfter lockRetryDelay) ↔
    (∃ t, world (.file (.stat (exportDirs dataDir k).lock)) (a, s.files) = (.ok (), t) ∧
      Openable world (exportDirs dataDir k).lock t) ∧ s.Out k
  unbegun : ∀ {α : Type} (action : Program α),
    ((withWriteLock (exportDirs dataDir k).lock action).run world (a, s.files)).1 = .ok none →
    (withWriteLock (exportDirs dataDir k).lock action).history world (a, s.files) =
      (tryWriteLock (exportDirs dataDir k).lock).history world (a, s.files)
  once : ∀ {α : Type} (action : Program α),
    Openable world (exportDirs dataDir k).lock (a, s.files) →
    ((withWriteLock (exportDirs dataDir k).lock action).run world (a, s.files)).1 ≠ .ok none →
    ∃ inode t, (tryWriteLock (exportDirs dataDir k).lock).run world (a, s.files) =
        (.ok (some inode), t) ∧
      (withWriteLock (exportDirs dataDir k).lock action).history world (a, s.files) =
        (tryWriteLock (exportDirs dataDir k).lock).history world (a, s.files) ++
          action.history world t ++ [⟨(action.run world t).2, .file (.release inode), .ok ()⟩]

theorem LockState.Sound.reports {τ : Type} {store : StoreBehaviour τ}
    {world : World (τ × FileSystem)} {s : LockState} {k : ObjectKey} (hs : s.Sound dataDir)
    (hworld : Hindered store world) (hk : k.Placeable) (a : τ) :
    ReportsLock dataDir s world a k where
  attempt := tryWriteLock_busy_iff hworld hk hs.guarded hs.held
  locked := withWriteLock_busy_iff hworld hk hs.guarded hs.held
  exported c hc := by
    subst hc
    exact exportConfig_busy_iff hworld hs.held hk hs.guarded
  removed := removeExport_busy_iff hworld hs.held hk hs.guarded
  unbegun _ := history_withWriteLock_none
  once _ := history_withWriteLock_done hworld hk hs.guarded hs.held

/-- Wherever calls have come to, at most one guard is out for a directory and what is locked is what
guards are out for; a call reports contention exactly when it could open the lock file and a guard
for its directory is out; and a call that takes a lock for as long as it runs leaves locked what was
locked, whatever it comes to. -/
theorem locks_reported_exactly {s : LockState} (h : CallsReach dataDir s) :
    (s.guards.map fun g => exportPlace dataDir g.1).Nodup ∧
      s.files.held.Perm (s.guards.map Prod.snd) ∧
      ∀ (τ : Type) (store : StoreBehaviour τ) (world : World (τ × FileSystem)),
        Hindered store world → ∀ a : τ,
          (∀ k : ObjectKey, k.Placeable → ReportsLock dataDir s world a k) ∧
          ∀ (α : Type) (p : Program α), LockUser dataDir world (a, s.files) α p →
            (p.run world (a, s.files)).2.2.held = s.files.held := by
  have hs := h.sound
  refine ⟨?_, hs.held, fun τ store world hworld a => ⟨fun k hk => hs.reports hworld hk a, ?_⟩⟩
  · refine List.pairwise_map.2 (List.Pairwise.imp ?_ (List.pairwise_map.1 hs.distinct))
    intro g g' hne heq
    have hbelow : exportPlace dataDir g.1 <+: exportPlace dataDir g'.1 :=
      heq ▸ List.prefix_refl (exportPlace dataDir g.1)
    exact exportPlace_beside hne hbelow
  · intro α p user
    exact (user.guardsOut hworld hs).held

end Sequences

private def lockedSite : LockState where
  files := ((tryWriteLock (exportDirs ⟨true, ["data"]⟩ ⟨"edge", "site"⟩).lock).run
    (besideFiles Memory.answer) ({}, (({} : FileSystem).answer
      (.makeDirs (exportDirs ⟨true, ["data"]⟩ ⟨"edge", "site"⟩).lock)).2)).2.2
  guards := [(⟨"edge", "site"⟩, 0)]

/-- A removal beside a guard gives way to it, and the guard is out still. -/
theorem locks_reported_exactly_removal :
    ((removeExport ⟨true, ["data"]⟩ ⟨"edge", "site"⟩).run (besideFiles Memory.answer)
        ({}, lockedSite.files)).1 = .ok (.requeueAfter lockRetryDelay) ∧
      ((removeExport ⟨true, ["data"]⟩ ⟨"edge", "site"⟩).run (besideFiles Memory.answer)
        ({}, lockedSite.files)).2.2.held = [0] := by
  have hkey : ObjectKey.Placeable ⟨"edge", "site"⟩ := by decide
  have hworld := hindered_besideFiles Memory.answer
  have hreach : CallsReach ⟨true, ["data"]⟩ lockedSite := by
    have hstart : CallsReach ⟨true, ["data"]⟩ ⟨(({} : FileSystem).answer
        (.makeDirs (exportDirs ⟨true, ["data"]⟩ ⟨"edge", "site"⟩).lock)).2, []⟩ :=
      .start (isTree_answer isTree_empty _) (numbered_answer isTree_empty numbered_empty _) rfl
    exact hstart.call (.acquired hworld hkey (Prod.ext rfl rfl))
  obtain ⟨-, -, hcalls⟩ := locks_reported_exactly hreach
  obtain ⟨hreports, hleaves⟩ := hcalls Memory Memory.answer (besideFiles Memory.answer) hworld {}
  refine ⟨(hreports _ hkey).removed.2 ⟨⟨_, rfl, 0, _, rfl⟩, ?_⟩, ?_⟩
  · exact List.mem_singleton.2 rfl
  · rw [hleaves _ _ (.removed hkey)]
    rfl

end Relocation
