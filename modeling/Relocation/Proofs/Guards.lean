import Relocation.Proofs.Exports
import Relocation.Proofs.Files.Confined

/-!
The guards of export directories, call by call. A guard that is out is a lock on the file that
stands where the lock file of its directory belongs (`GuardsOut`), and no call takes that file away
but a removal that has the lock itself. So an attempt to take a lock gives way exactly to a guard
that is out (`lockAttempt`), and an export, a removal and a reconcile leave the guards that were out
and none of their own, whatever they come to (`guardsOut_exportConfig`, `guardsOut_removeExport`,
`guardsOut_reconcile`).
-/

set_option autoImplicit false

namespace Relocation

open Files (FileSystem IoError Removal)
open Files.FileSystem
open Program Request

/-- The world of a store beside a tree of files, except that an operation on files may fail, unless
it tries a lock or gives one back. -/
structure Hindered {τ : Type} (store : StoreBehaviour τ) (world : World (τ × FileSystem)) :
    Prop where
  file : ∀ call s, world (.file call) s = besideFiles store (.file call) s ∨
    ∃ e, world (.file call) s = (.error e, s)
  other : ∀ q s, (∀ call, q = .file call → q.Locks) → world q s = besideFiles store q s

theorem hindered_besideFiles {τ : Type} (store : StoreBehaviour τ) :
    Hindered store (besideFiles store) := ⟨fun _ _ => .inl rfl, fun _ _ _ => rfl⟩

/-- Whether a request takes no lock, gives none back, and takes away no lock file of certain
keys. -/
def Request.SparesLocks (dataDir : Path) (keys : ObjectKey → Prop) : Request → Prop
  | .file (.tryLock _) | .file (.release _) => False
  | .file (.remove step) => ∀ k, keys k → step.place ≠ lockPlace dataDir k
  | _ => True

/-- A tree in which guards are out and files are held: each guard has the number of the file that
stands where the lock file of its key belongs. -/
structure GuardsOut (dataDir : Path) (guards : List (ObjectKey × Nat)) (held : List Nat)
    (fs : FileSystem) : Prop where
  tree : fs.IsTree
  numbered : fs.Numbered
  placed : ∀ g ∈ guards, ∃ mode text,
    fs.entries.get? (lockPlace dataDir g.1) = some (.file g.2 mode text)
  held : fs.held = held

/-- Whether the lock file of a directory can be opened. -/
def Openable {σ : Type} (world : World σ) (dir : Path) (s : σ) : Prop :=
  ∃ inode t, world (.file (.openLock (dir.join lockFileName))) s = (.ok inode, t)

section Guarding

variable {τ : Type} {store : StoreBehaviour τ} {world : World (τ × FileSystem)} {dataDir : Path}
  {k : ObjectKey} {guards : List (ObjectKey × Nat)} {held : List Nat} {fs : FileSystem}
  {s t : τ × FileSystem} {α β : Type}

theorem Request.sparesLocks_of_no_file {q : Request} {keys : ObjectKey → Prop}
    (hq : ∀ call, q ≠ .file call) : q.SparesLocks dataDir keys := by
  cases q with
  | file call => exact absurd rfl (hq call)
  | store call => exact trivial
  | note notice => exact trivial

theorem Request.SparesLocks.mono {q : Request} {keys keys' : ObjectKey → Prop}
    (hq : q.SparesLocks dataDir keys) (hkeys : ∀ k, keys' k → keys k) :
    q.SparesLocks dataDir keys' := by
  cases q with
  | file call =>
    cases call with
    | remove step => exact fun k hk => hq k (hkeys k hk)
    | tryLock inode => exact hq
    | release inode => exact hq
    | _ => exact trivial
  | store call => exact trivial
  | note notice => exact trivial

theorem GuardsOut.tail {g : ObjectKey × Nat} (h : GuardsOut dataDir (g :: guards) held fs) :
    GuardsOut dataDir guards held fs :=
  ⟨h.tree, h.numbered, fun g' hg' => h.placed g' (List.mem_cons_of_mem g hg'), h.held⟩

theorem GuardsOut.relock (h : GuardsOut dataDir guards held fs) (held' : List Nat) :
    GuardsOut dataDir guards held' { fs with held := held' } :=
  ⟨isTree_of_entries h.tree rfl, ⟨h.numbered.given, h.numbered.own⟩, h.placed, rfl⟩

/-- What spares the lock files of guards does to files leaves the guards out. -/
theorem GuardsOut.answer (h : GuardsOut dataDir guards held fs) {call : FileCall}
    (hcall : (Request.file call).SparesLocks dataDir (· ∈ guards.map Prod.fst)) :
    GuardsOut dataDir guards held (fs.answer call).2 := by
  have htree := isTree_answer h.tree call
  have hnumbered := numbered_answer h.tree h.numbered call
  -- Only a removal takes something away, and that at one place. All else keeps the files there are.
  by_cases hremoves : ∃ step, call = .remove step
  · obtain ⟨step, rfl⟩ := hremoves
    have hsame : (fs.answer (.remove step)).2 = fs ∨
        (fs.answer (.remove step)).2 = { fs with entries := fs.entries.erase step.place } := by
      rw [FileSystem.answer]
      cases hremove : fs.remove step with
      | error e => exact .inl rfl
      | ok after => exact .inr (remove_place h.tree hremove).1
    rcases hsame with hsame | hsame
    · rw [hsame]
      exact h
    · refine ⟨htree, hnumbered, fun g hg => ?_, by rw [hsame]; exact h.held⟩
      have hbeside : lockPlace dataDir g.1 ≠ step.place := fun heq =>
        hcall g.1 (List.mem_map_of_mem hg) heq.symm
      obtain ⟨mode, text, hfile⟩ := h.placed g hg
      refine ⟨mode, text, ?_⟩
      rw [hsame]
      exact (Table.get?_erase_of_ne _ hbeside).trans hfile
  · have hremove : ∀ step, call ≠ .remove step := fun step heq => hremoves ⟨step, heq⟩
    have hbuilds : fs.Builds (fs.answer call).2 := by
      refine builds_answer hremove ?_ ?_
      · rintro inode rfl
        exact hcall
      · rintro inode rfl
        exact hcall
    refine ⟨htree, hnumbered, fun g hg => ?_, hbuilds.held.trans h.held⟩
    obtain ⟨mode, text, hfile⟩ := h.placed g hg
    obtain ⟨text', hfile'⟩ := hbuilds.file hfile
    exact ⟨mode, text', hfile'⟩

theorem GuardsOut.request (hworld : Hindered store world) (h : GuardsOut dataDir guards held s.2)
    {q : Request} (hq : q.SparesLocks dataDir (· ∈ guards.map Prod.fst)) :
    GuardsOut dataDir guards held (world q s).2.2 := by
  cases q with
  | file call =>
    rcases hworld.file call s with hanswered | ⟨e, hfailed⟩
    · rw [hanswered]
      exact h.answer hq
    · rw [hfailed]
      exact h
  | store call =>
    rw [hworld.other (.store call) s nofun]
    exact h
  | note notice =>
    rw [hworld.other (.note notice) s nofun]
    exact h

/-- A run whose requests spare the lock files of guards leaves the guards out. -/
theorem GuardsOut.run (hworld : Hindered store world) {p : Program α}
    (h : GuardsOut dataDir guards held s.2)
    (hp : ∀ e ∈ p.history world s, e.request.SparesLocks dataDir (· ∈ guards.map Prod.fst)) :
    GuardsOut dataDir guards held (p.run world s).2.2 := by
  induction p generalizing s with
  | done r => exact h
  | ask q next ih =>
    obtain ⟨hq, hnext⟩ := List.forall_mem_cons.1 hp
    exact ih _ (h.request hworld hq) hnext

theorem GuardsOut.only (hworld : Hindered store world) {p : Program α}
    (h : GuardsOut dataDir guards held s.2)
    (hp : p.Only fun q => q.SparesLocks dataDir (· ∈ guards.map Prod.fst)) :
    GuardsOut dataDir guards held (p.run world s).2.2 := h.run hworld (hp.history s)

theorem GuardsOut.bind {p : Program α} {f : α → Program β}
    (hp : GuardsOut dataDir guards held (p.run world s).2.2)
    (hf : ∀ a t, p.run world s = (.ok a, t) → GuardsOut dataDir guards held t.2 →
      GuardsOut dataDir guards held ((f a).run world t).2.2) :
    GuardsOut dataDir guards held ((p >>= f).run world s).2.2 := by
  rw [run_bind]
  rcases hrun : p.run world s with ⟨e | a, t⟩
  · rwa [hrun] at hp
  · rw [hrun] at hp
    exact hf a t hrun hp

theorem lockedOutcome_busy_iff {σ : Type} {world : World σ} {s : σ} {p : Program (Option Unit)} :
    ((p >>= lockedOutcome k).run world s).1 = .ok (.requeueAfter lockRetryDelay) ↔
      (p.run world s).1 = .ok none := by
  rw [run_bind]
  rcases p.run world s with ⟨e | _ | u, t⟩
  · simp
  · exact ⟨fun _ => rfl, fun _ => rfl⟩
  · simp [lockedOutcome]

theorem GuardsOut.mem_held_iff (h : GuardsOut dataDir guards held fs)
    (hheld : held.Perm (guards.map Prod.snd)) {inode mode : Nat} {text : String}
    (hfile : fs.entries.get? (lockPlace dataDir k) = some (.file inode mode text)) :
    inode ∈ held ↔ k ∈ guards.map Prod.fst := by
  rw [hheld.mem_iff, List.mem_map, List.mem_map]
  constructor
  · rintro ⟨g, hg, rfl⟩
    obtain ⟨mode', text', hfile'⟩ := h.placed g hg
    have hplace := h.numbered.own _ _ _ _ _ _ _ hfile' hfile
    exact ⟨g, hg, eq_of_lockPlace_below (hplace ▸ lockPlace_below)⟩
  · rintro ⟨g, hg, rfl⟩
    obtain ⟨mode', text', hfile'⟩ := h.placed g hg
    have hsame := hfile'.symm.trans hfile
    cases hsame
    exact ⟨g, hg, rfl⟩

theorem lockFile_placed (hk : k.Placeable) (h : fs.IsTree) {fs' : FileSystem} {inode : Nat}
    (hopen : fs.answer (.openLock ((exportDirs dataDir k).lock.join lockFileName)) =
      (.ok inode, fs')) :
    ∃ mode text, fs'.entries.get? (lockPlace dataDir k) = some (.file inode mode text) := by
  rw [← lexical_lockPath hk]
  rcases openFile_place h (openLock_eq_ok hopen) with ⟨rfl, mode, text, hfile⟩ | ⟨-, -, rfl, rfl⟩
  · exact ⟨mode, text, hfile⟩
  · exact ⟨Files.lockFileMode, "", Table.get?_insert_self _ _ _⟩

/-- How an attempt to take the lock of a key ends: the lock file could not be opened, or a guard for
the key is out, or none was and now one is. -/
inductive LockAttempt {τ : Type} (world : World (τ × FileSystem)) (s : τ × FileSystem)
    (dataDir : Path) (k : ObjectKey) (guards : List (ObjectKey × Nat)) (held : List Nat) : Prop
  | failed {e : Error} {t : τ × FileSystem}
      (run : (tryWriteLock (exportDirs dataDir k).lock).run world s = (.error e, t))
      (unopened : ¬Openable world (exportDirs dataDir k).lock s)
      (guarded : GuardsOut dataDir guards held t.2)
  | busy {t : τ × FileSystem}
      (run : (tryWriteLock (exportDirs dataDir k).lock).run world s = (.ok none, t))
      (opened : Openable world (exportDirs dataDir k).lock s) (out : k ∈ guards.map Prod.fst)
      (guarded : GuardsOut dataDir guards held t.2)
  | taken {inode : Nat} {t : τ × FileSystem}
      (run : (tryWriteLock (exportDirs dataDir k).lock).run world s = (.ok (some inode), t))
      (opened : Openable world (exportDirs dataDir k).lock s) (free : k ∉ guards.map Prod.fst)
      (guarded : GuardsOut dataDir ((k, inode) :: guards) (inode :: held) t.2)

private theorem run_tryWriteLock_unopened {σ : Type} {world : World σ} {dir : Path} {s t : σ}
    {e : IoError} (hopen : world (.file (.openLock (dir.join lockFileName))) s = (.error e, t)) :
    (tryWriteLock dir).run world s = (.error (.lock dir.text e), t) ∧ ¬Openable world dir s := by
  refine ⟨by rw [tryWriteLock, run_bind, run_file, hopen]; rfl, ?_⟩
  rintro ⟨inode, u, hopened⟩
  cases hopen.symm.trans hopened

/-- An attempt to take the lock of a key gives way exactly to a guard that is out. -/
theorem lockAttempt (hworld : Hindered store world) (hk : k.Placeable)
    (h : GuardsOut dataDir guards held s.2) (hheld : held.Perm (guards.map Prod.snd)) :
    LockAttempt world s dataDir k guards held := by
  obtain ⟨reply, fs', hanswer⟩ : ∃ reply fs',
      s.2.answer (.openLock ((exportDirs dataDir k).lock.join lockFileName)) = (reply, fs') :=
    ⟨_, _, rfl⟩
  have hguarded : GuardsOut dataDir guards held fs' := by
    have hopens : (Request.file
        (.openLock ((exportDirs dataDir k).lock.join lockFileName))).SparesLocks dataDir
          (· ∈ guards.map Prod.fst) := trivial
    have hopened := h.answer hopens
    rwa [hanswer] at hopened
  rcases hworld.file (.openLock ((exportDirs dataDir k).lock.join lockFileName)) s with
    hanswered | ⟨e, hfailed⟩
  · rw [besideFiles, hanswer] at hanswered
    cases reply with
    | error e =>
      obtain ⟨hrun, hunopened⟩ := run_tryWriteLock_unopened hanswered
      exact .failed hrun hunopened hguarded
    | ok inode =>
      obtain ⟨mode, text, hfile⟩ := lockFile_placed hk h.tree hanswer
      have hlock := hworld.other (.file (.tryLock inode)) (s.1, fs') fun _ _ => trivial
      have hiff := hguarded.mem_held_iff hheld hfile
      by_cases hout : inode ∈ held
      · have hbusy : inode ∈ fs'.held := hguarded.held ▸ hout
        rw [besideFiles, answer_tryLock_held hbusy] at hlock
        have hrun := tryWriteLock_run_of hanswered hlock
        exact .busy hrun ⟨inode, _, hanswered⟩ (hiff.1 hout) hguarded
      · have hfree : inode ∉ fs'.held := hguarded.held ▸ hout
        rw [besideFiles, answer_tryLock_free hfree] at hlock
        have hrun := tryWriteLock_run_of hanswered hlock
        have hlocked := hguarded.relock (inode :: fs'.held)
        refine .taken hrun ⟨inode, _, hanswered⟩ (fun hmem => hout (hiff.2 hmem))
          ⟨hlocked.tree, hlocked.numbered, ?_, ?_⟩
        · exact List.forall_mem_cons.2 ⟨⟨mode, text, hfile⟩, hguarded.placed⟩
        · exact congrArg _ hguarded.held
  · obtain ⟨hrun, hunopened⟩ := run_tryWriteLock_unopened hfailed
    exact .failed hrun hunopened h

section Locking

variable (hworld : Hindered store world) (hk : k.Placeable) (h : GuardsOut dataDir guards held s.2)
  (hheld : held.Perm (guards.map Prod.snd))

include hworld hk h hheld

theorem tryWriteLock_busy_iff :
    ((tryWriteLock (exportDirs dataDir k).lock).run world s).1 = .ok none ↔
      Openable world (exportDirs dataDir k).lock s ∧ k ∈ guards.map Prod.fst := by
  cases lockAttempt hworld hk h hheld with
  | failed run unopened guarded => simp [run, unopened]
  | busy run opened out guarded => simp [run, opened, out]
  | taken run opened free guarded => simp [run, free]

theorem guardsOut_withWriteLock {action : Program α}
    (haction : ∀ inode t, (tryWriteLock (exportDirs dataDir k).lock).run world s =
      (.ok (some inode), t) → GuardsOut dataDir ((k, inode) :: guards) (inode :: held) t.2 →
      k ∉ guards.map Prod.fst →
      ∀ e ∈ action.history world t, e.request.SparesLocks dataDir (· ∈ guards.map Prod.fst)) :
    GuardsOut dataDir guards held
      ((withWriteLock (exportDirs dataDir k).lock action).run world s).2.2 := by
  cases lockAttempt hworld hk h hheld with
  | failed run unopened guarded =>
    rw [run_withWriteLock_untaken run nofun]
    exact guarded
  | busy run opened out guarded =>
    rw [run_withWriteLock_untaken run nofun]
    exact guarded
  | @taken inode t run opened free guarded =>
    have hacted : GuardsOut dataDir guards (inode :: held) (action.run world t).2.2 :=
      guarded.tail.run hworld (haction inode t run guarded free)
    have hreleased := hacted.relock ((action.run world t).2.2.held.erase inode)
    rw [run_withWriteLock_taken run, hworld.other (.file (.release inode)) _ fun _ _ => trivial]
    refine ⟨hreleased.tree, hreleased.numbered, hreleased.placed, ?_⟩
    show (action.run world t).2.2.held.erase inode = held
    rw [hacted.held, List.erase_cons_head]

theorem withWriteLock_busy_iff (action : Program α) :
    ((withWriteLock (exportDirs dataDir k).lock action).run world s).1 = .ok none ↔
      Openable world (exportDirs dataDir k).lock s ∧ k ∈ guards.map Prod.fst := by
  cases lockAttempt hworld hk h hheld with
  | failed run unopened guarded =>
    rw [run_withWriteLock_untaken run nofun]
    simp [unopened, Except.map]
  | busy run opened out guarded =>
    rw [run_withWriteLock_untaken run nofun]
    simp [opened, out, Except.map]
  | @taken inode t run opened free guarded =>
    rw [run_withWriteLock_taken run]
    cases (action.run world t).1 <;> simp [free, Except.map]

theorem history_withWriteLock_done {action : Program α}
    (hopened : Openable world (exportDirs dataDir k).lock s)
    (hdone : ((withWriteLock (exportDirs dataDir k).lock action).run world s).1 ≠ .ok none) :
    ∃ inode t, (tryWriteLock (exportDirs dataDir k).lock).run world s = (.ok (some inode), t) ∧
      (withWriteLock (exportDirs dataDir k).lock action).history world s =
        (tryWriteLock (exportDirs dataDir k).lock).history world s ++ action.history world t ++
          [⟨(action.run world t).2, .file (.release inode), .ok ()⟩] := by
  cases lockAttempt hworld hk h hheld with
  | failed run unopened guarded => exact absurd hopened unopened
  | busy run opened out guarded =>
    rw [run_withWriteLock_untaken run nofun] at hdone
    exact absurd rfl hdone
  | @taken inode t run opened free guarded =>
    refine ⟨inode, t, run, ?_⟩
    rw [history_withWriteLock_taken run,
      hworld.other (.file (.release inode)) _ fun _ _ => trivial]
    rfl

end Locking

section Calls

theorem sparesLocks_removeTree (hworld : Hindered store world) (hk : k.Placeable)
    {keys : ObjectKey → Prop} (hkeys : ¬keys k) (ht : s.2.IsTree) :
    ∀ e ∈ (Program.note (.filesRemoved k) >>= fun _ =>
      removeTree (exportDirs dataDir k).lock).history world s,
      e.request.SparesLocks dataDir keys := by
  have hnoted : (Program.note (.filesRemoved k)).run world s = (.ok (), s) := by
    rw [run_note, hworld.other (.note (.filesRemoved k)) s nofun]
    rfl
  intro e he
  rcases mem_history_bind.1 he with he | ⟨u, t, hrun, he⟩
  · obtain rfl := List.mem_singleton.1 he
    exact trivial
  · obtain rfl : s = t := congrArg Prod.snd (hnoted.symm.trans hrun)
    rcases mem_history_bind.1 he with he | ⟨steps, t, hplan, he⟩
    · obtain rfl := List.mem_singleton.1 he
      exact trivial
    · have hplanned : s.2.planRemoval (exportDirs dataDir k).lock = .ok steps := by
        have hreply := congrArg Prod.fst (run_file_eq_ok hplan)
        rcases hworld.file (.planRemoval (exportDirs dataDir k).lock) s with
          hanswered | ⟨e, hfailed⟩
        · rw [hanswered] at hreply
          exact hreply
        · rw [hfailed] at hreply
          cases hreply
      refine (removeAll_only fun step hstep => ?_).history t e he
      intro k' hk' hplace
      have hbelow := place_of_owns hk (owns_of_plan ht hk hplanned step hstep)
      rw [hplace] at hbelow
      exact hkeys (eq_of_lockPlace_below hbelow ▸ hk')

private theorem Request.Hosting.no_file {q : Request} (hq : q.Hosting) :
    ∀ call, q ≠ .file call := by
  rintro call rfl
  exact hq

variable (hworld : Hindered store world) (hheld : held.Perm (guards.map Prod.snd))

include hworld hheld

theorem guardsOut_exportConfig {c : ClusterConfig} (hk : c.key.Placeable)
    (h : GuardsOut dataDir guards held s.2) :
    GuardsOut dataDir guards held ((exportConfig dataDir c).run world s).2.2 := by
  refine GuardsOut.bind (h.only hworld (collect_only fun _ _ => trivial)) fun artifacts t _ ht => ?_
  refine GuardsOut.bind (ht.only hworld (only_file trivial)) fun _ t _ ht => ?_
  refine GuardsOut.bind (guardsOut_withWriteLock hworld hk ht hheld fun inode u _ _ _ => ?_)
    fun written t _ ht => ht.only hworld (lockedOutcome_only (fun _ => trivial) _ _)
  exact (writeArtifacts_only (fun _ => trivial) (fun _ _ => trivial) artifacts).history u

theorem guardsOut_removeExport (hk : k.Placeable) (h : GuardsOut dataDir guards held s.2) :
    GuardsOut dataDir guards held ((removeExport dataDir k).run world s).2.2 := by
  refine GuardsOut.bind (h.only hworld (only_tryFile trivial)) fun found t _ ht => ?_
  cases found with
  | error e =>
    dsimp only
    split <;> exact ht
  | ok u =>
    refine GuardsOut.bind (guardsOut_withWriteLock hworld hk ht hheld
      fun inode u _ hlocked hfree => ?_)
      fun removed t _ ht => ht.only hworld (lockedOutcome_only (fun _ => trivial) _ _)
    exact sparesLocks_removeTree hworld hk hfree hlocked.tree

/-- An export reports that another holds the lock exactly when it comes to open the lock file and a
guard for its key is out. -/
theorem exportConfig_busy_iff {c : ClusterConfig} (hk : c.key.Placeable)
    (h : GuardsOut dataDir guards held s.2) :
    ((exportConfig dataDir c).run world s).1 = .ok (.requeueAfter lockRetryDelay) ↔
      (∃ artifacts t u, (collect c).run world s = (.ok artifacts, t) ∧
        world (.file (.makeDirs (exportDirs dataDir c.key).files)) t = (.ok (), u) ∧
        Openable world (exportDirs dataDir c.key).lock u) ∧ c.key ∈ guards.map Prod.fst := by
  have hreached {artifacts : List (Artifact × String)} {t u : τ × FileSystem}
      (hcollect : (collect c).run world s = (.ok artifacts, t))
      (hmake : world (.file (.makeDirs (exportDirs dataDir c.key).files)) t = (.ok (), u)) :
      ((withWriteLock (exportDirs dataDir c.key).lock
        (writeArtifacts (exportDirs dataDir c.key).files artifacts)).run world u).1 = .ok none ↔
        Openable world (exportDirs dataDir c.key).lock u ∧ c.key ∈ guards.map Prod.fst := by
    have ht : GuardsOut dataDir guards held ((collect c).run world s).2.2 :=
      h.only hworld (collect_only fun _ _ => trivial)
    rw [hcollect] at ht
    have hmakes : (Request.file (.makeDirs (exportDirs dataDir c.key).files)).SparesLocks dataDir
        (· ∈ guards.map Prod.fst) := trivial
    have hu := ht.request hworld hmakes
    rw [hmake] at hu
    exact withWriteLock_busy_iff hworld hk hu hheld _
  constructor
  · intro hbusy
    obtain ⟨artifacts, t, hcollect, hbusy⟩ := run_bind_eq_ok (Prod.ext hbusy rfl)
    obtain ⟨_, u, hmake, hbusy⟩ := run_bind_eq_ok hbusy
    have hmade := run_file_eq_ok hmake
    have hwaits := lockedOutcome_busy_iff.1 (congrArg Prod.fst hbusy)
    obtain ⟨hopens, hout⟩ := (hreached hcollect hmade).1 hwaits
    exact ⟨⟨artifacts, t, u, hcollect, hmade, hopens⟩, hout⟩
  · rintro ⟨⟨artifacts, t, u, hcollect, hmade, hopens⟩, hout⟩
    have hmake : (Program.file (.makeDirs (exportDirs dataDir c.key).files)).run world t =
        (.ok (), u) := by
      rw [run_file, hmade]
      rfl
    have hwaits := (hreached hcollect hmade).2 ⟨hopens, hout⟩
    rw [exportConfig, run_bind_ok hcollect]
    dsimp only
    rw [run_bind_ok hmake]
    exact lockedOutcome_busy_iff.2 hwaits

/-- A removal reports that another holds the lock exactly when the directory is there, its lock file
can be opened, and a guard for its key is out. -/
theorem removeExport_busy_iff (hk : k.Placeable) (h : GuardsOut dataDir guards held s.2) :
    ((removeExport dataDir k).run world s).1 = .ok (.requeueAfter lockRetryDelay) ↔
      (∃ t, world (.file (.stat (exportDirs dataDir k).lock)) s = (.ok (), t) ∧
        Openable world (exportDirs dataDir k).lock t) ∧ k ∈ guards.map Prod.fst := by
  have hstat : (Request.file (.stat (exportDirs dataDir k).lock)).SparesLocks dataDir
      (· ∈ guards.map Prod.fst) := trivial
  have ht := h.request hworld hstat
  rw [removeExport, run_bind, run_tryFile]
  rcases hfound : world (.file (.stat (exportDirs dataDir k).lock)) s with ⟨e | u, t⟩
  · dsimp only
    split <;> simp
  · rw [hfound] at ht
    refine lockedOutcome_busy_iff.trans
      ((withWriteLock_busy_iff hworld hk ht hheld _).trans (and_congr_left fun _ => ?_))
    refine ⟨fun hopens => ⟨t, rfl, hopens⟩, ?_⟩
    rintro ⟨_, hsame, hopens⟩
    cases hsame
    exact hopens

omit hheld in
private theorem guardsOut_only {p : Program α} (h : GuardsOut dataDir guards held s.2)
    (hp : p.Only fun q => ∀ call, q ≠ .file call) :
    GuardsOut dataDir guards held (p.run world s).2.2 :=
  h.only hworld (hp.mono fun _ hq => sparesLocks_of_no_file hq)

private theorem guardsOut_lifecycleStep {c : ClusterConfig} (hk : c.key.Placeable)
    (h : GuardsOut dataDir guards held s.2) :
    GuardsOut dataDir guards held ((lifecycleStep dataDir c).run world s).2.2 := by
  rw [lifecycleStep]
  split
  · rw [terminate]
    split
    · exact h
    · refine GuardsOut.bind (guardsOut_removeExport hworld hheld hk h) fun removed t _ ht => ?_
      split
      · exact ht
      · refine GuardsOut.bind (guardsOut_only hworld ht ((releaseHost_only c).mono fun _ hq =>
          hq.1.no_file)) fun _ u _ hu => ?_
        exact guardsOut_only hworld hu (.bind (only_note nofun) fun _ =>
          .bind (only_store nofun) fun _ => only_pure _)
  · rw [ensureFinalizer]
    split
    · exact h
    · exact guardsOut_only hworld h (.bind (only_note nofun) fun _ =>
        .bind (only_store nofun) fun _ => only_pure _)

private theorem guardsOut_converge {c : ClusterConfig} {serviceUrl : String} (hk : c.key.Placeable)
    (h : GuardsOut dataDir guards held s.2) :
    GuardsOut dataDir guards held ((converge ⟨dataDir, serviceUrl⟩ k c).run world s).2.2 := by
  refine GuardsOut.bind (guardsOut_exportConfig hworld hheld hk h) fun exported t _ ht => ?_
  split
  · exact ht
  · exact guardsOut_only hworld ht (.bind ((syncHost_only _ _ _).mono fun _ hq => hq.no_file)
      fun _ => .bind (only_note nofun) fun _ => only_pure _)

theorem guardsOut_reconcile {serviceUrl : String}
    (hkeys : ∀ c t, world (.store (.getConfig k)) s = (.ok (some c), t) → c.key.Placeable)
    (h : GuardsOut dataDir guards held s.2) :
    GuardsOut dataDir guards held ((reconcile ⟨dataDir, serviceUrl⟩ k).run world s).2.2 := by
  have hnoted : (Program.note .reconcileStarted).run world s = (.ok (), s) := by
    rw [run_note, hworld.other (.note .reconcileStarted) s nofun]
    rfl
  rw [reconcile, run_bind_ok hnoted]
  refine GuardsOut.bind (guardsOut_only hworld h (only_store nofun)) fun found t hfound ht => ?_
  cases found with
  | none => exact ht
  | some c =>
    have hk : c.key.Placeable := hkeys c t hfound
    refine GuardsOut.bind (guardsOut_lifecycleStep hworld hheld hk ht) fun step u _ hu => ?_
    cases step with
    | halt outcome => exact hu
    | proceed => exact guardsOut_converge hworld hheld hk hu

end Calls

end Guarding

end Relocation
