import Relocation.Proofs.Files.Twins
import Relocation.Proofs.Phases

/-!
The work on the files of a config, in a tree. It leaves the store as it is and stays in the export
directory and on the way to it (`confined_fileWork`), and it comes to the same from stores with the
same secrets and trees that it cannot tell apart (`twinned_fileWork`).
-/

set_option autoImplicit false

namespace Relocation

open Files (FileSystem IoError Removal)
open Files.FileSystem
open Program Request Store

section Confined

variable {dataDir : Path} {k : ObjectKey} {c : ClusterConfig} {m : Memory} {fs : FileSystem}
  {s t : Memory × FileSystem}

private def calm : Surroundings (Memory × FileSystem) where
  others s t := s = t
  answers s q reply t := besideFiles Memory.answer q s = (reply, t)
  allowed _ _ _ _ := True

/-- Whether a request belongs to the work on the files of a key: it reads a secret, or does to files
what an export or a removal does. -/
def OnFiles (dataDir : Path) (k : ObjectKey) : Request → Prop
  | .store call => ∃ key, call = .getSecret key
  | .file call => Owns dataDir k call
  | .note _ => True

/-- The store is as it was, and the files have changed for a key only. -/
private structure Working (dataDir : Path) (k : ObjectKey) (s t : Memory × FileSystem) : Prop where
  store : t.1 = s.1
  files : Confined dataDir k s.2 t.2

private theorem carried_working (hk : k.Placeable) :
    Carried calm (OnFiles dataDir k) (Working dataDir k s) where
  kept ha hothers := hothers ▸ ha
  step {a q reply b} ha hq hanswer := by
    refine ⟨trivial, ?_⟩
    obtain rfl : (besideFiles Memory.answer q a).2 = b := congrArg Prod.snd hanswer
    cases q with
    | store call =>
      obtain ⟨key, rfl⟩ := hq
      exact ha
    | file call => exact ⟨ha.store, ha.files.trans (confined_answer ha.files.tree hk hq)⟩
    | note notice => exact ha

private theorem onFiles_of_exporting {q : Request} (hq : q.Exporting (exportDirs dataDir k)) :
    OnFiles dataDir k q := by
  cases hq with
  | secret key => exact ⟨key, rfl⟩
  | makeDirs => exact .makeDirs
  | openLock => exact .clears .openLock
  | tryLock inode => exact .clears (.tryLock inode)
  | read artifact => exact .read artifact
  | write artifact content => exact .write artifact content
  | release inode => exact .clears (.release inode)
  | note notice => exact trivial

private theorem working_removeTree (hk : k.Placeable) (h : Working dataDir k s t) :
    (removeTree (exportDirs dataDir k).lock).Keeps calm (fun _ => Working dataDir k s) t := by
  rintro t rfl reply u hanswer
  obtain ⟨rfl, rfl⟩ := Prod.mk.inj hanswer
  refine ⟨trivial, ?_⟩
  cases hplan : t.2.planRemoval (exportDirs dataDir k).lock with
  | error e =>
    simp only [FileSystem.answer, hplan]
    exact h
  | ok steps =>
    simp only [FileSystem.answer, hplan]
    exact (carried_working hk).only (removeAll_only (owns_of_plan h.files.tree hk hplan)) h

private theorem working_removeExport (hk : k.Placeable) (h : Working dataDir k s t) :
    (removeExport dataDir k).Keeps calm (fun _ => Working dataDir k s) t := by
  have hcarried : Carried calm (OnFiles dataDir k) (Working dataDir k s) := carried_working hk
  refine hcarried.ask h (.clears .stat) fun _ found u _ _ hu => ?_
  cases found with
  | error e =>
    dsimp only [bind_def, Program.bind]
    split <;> exact hu
  | ok _ =>
    refine (keeps_bind (f := lockedOutcome k)).2 ?_
    refine (keeps_withWriteLock (fun _ => Working dataDir k s) hu hcarried.kept hcarried.kept
      ?_ ?_ ?_).mono ?_
    · rintro a q reply b ha (rfl | ⟨inode, rfl⟩) hanswer
      · exact hcarried.step (q := .file _) ha (.clears .openLock) hanswer
      · exact hcarried.step (q := .file _) ha (.clears (.tryLock inode)) hanswer
    · intro r a inode reply b ha hanswer
      exact hcarried.step (q := .file _) ha (.clears (.release inode)) hanswer
    · exact fun v hv => hcarried.ask hv trivial fun _ _ _ _ _ hw => working_removeTree hk hw
    · rintro (e | _ | a) v hv
      · exact hv.elim id id
      · exact hcarried.ask hv trivial fun _ _ _ _ _ hw => hw
      · exact hv

private theorem working_fileWork (hk : c.key.Placeable) (h : Working dataDir c.key s t) :
    (fileWork dataDir c).Keeps calm (fun _ => Working dataDir c.key s) t := by
  unfold fileWork
  split
  · exact h
  · split
    · exact working_removeExport hk h
    · exact (carried_working hk).only
        ((exportConfig_only dataDir c).mono fun _ => onFiles_of_exporting) h

/-- Work on the files of a config leaves the store as it is, and changes nothing outside the export
directory but for directories that were missing on the way to it. -/
theorem confined_fileWork (dataDir : Path) (hk : c.key.Placeable) (h : fs.IsTree) (m : Memory) :
    ∃ worked gs, (fileWork dataDir c).run (besideFiles Memory.answer) (m, fs) = (worked, m, gs) ∧
      Confined dataDir c.key fs gs := by
  have hworked : Working dataDir c.key (m, fs)
      ((fileWork dataDir c).run (besideFiles Memory.answer) (m, fs)).2 :=
    (working_fileWork hk ⟨rfl, .refl h⟩).course (course_run (fun _ => rfl) (fun _ _ => rfl) _ _)
  generalize (fileWork dataDir c).run (besideFiles Memory.answer) (m, fs) = r at hworked ⊢
  obtain ⟨worked, m', gs⟩ := r
  obtain rfl : m' = m := hworked.store
  exact ⟨worked, gs, rfl, hworked.files⟩

end Confined

section Twinned

variable {α β : Type} {dataDir : Path} {k : ObjectKey} {c : ClusterConfig}
  {start : FileSystem × FileSystem} {locks : List Nat × List Nat}
  {s s' t t' : Memory × FileSystem}

/-- Two states that the work on the files of a key has come to, with stores left as they were that
have the same secrets, and with trees that it cannot tell apart. -/
private structure Peers (dataDir : Path) (k : ObjectKey) (start : FileSystem × FileSystem)
    (locks : List Nat × List Nat) (stores : Memory × Memory) (s s' : Memory × FileSystem) :
    Prop where
  store : s.1 = stores.1
  store' : s'.1 = stores.2
  secrets : stores.1.secrets = stores.2.secrets
  files : Twins dataDir k start locks s.2 s'.2

/-- Whether a program comes to the same result from any two related states, and to such states. -/
private def Twinned (rel : Memory × FileSystem → Memory × FileSystem → Prop) (p : Program α) :
    Prop :=
  ∀ s s', rel s s' →
    (p.run (besideFiles Memory.answer) s).1 = (p.run (besideFiles Memory.answer) s').1 ∧
      rel (p.run (besideFiles Memory.answer) s).2 (p.run (besideFiles Memory.answer) s').2

variable {rel : Memory × FileSystem → Memory × FileSystem → Prop}

private theorem Twinned.bind {p : Program α} {f : α → Program β} (hp : Twinned rel p)
    (hf : ∀ a, Twinned rel (f a)) : Twinned rel (p >>= f) := by
  intro s s' hs
  obtain ⟨hresult, hafter⟩ := hp s s' hs
  rw [run_bind, run_bind]
  rcases hrun : p.run (besideFiles Memory.answer) s with ⟨r, t⟩
  rcases hrun' : p.run (besideFiles Memory.answer) s' with ⟨r', t'⟩
  rw [hrun, hrun'] at hresult hafter
  obtain rfl : r = r' := hresult
  cases r with
  | error e => exact ⟨rfl, hafter⟩
  | ok a => exact hf a t t' hafter

private theorem twinned_only {kind : Request → Prop} {p : Program α} (hp : p.Only kind)
    (hstep : ∀ q, kind q → ∀ s s', rel s s' →
      (besideFiles Memory.answer q s).1 = (besideFiles Memory.answer q s').1 ∧
        rel (besideFiles Memory.answer q s).2 (besideFiles Memory.answer q s').2) :
    Twinned rel p := by
  induction p with
  | done r => exact fun _ _ hs => ⟨rfl, hs⟩
  | ask q next ih =>
    intro s s' hs
    obtain ⟨hreply, hafter⟩ := hstep q hp.1 s s' hs
    rw [run_ask, run_ask, ← hreply]
    exact ih _ (hp.2 _) _ _ hafter

private def Locking : Request → Prop
  | .file (.openLock _) | .file (.tryLock _) | .file (.release _) => True
  | _ => False

private def Unlocking (dataDir : Path) (k : ObjectKey) (q : Request) : Prop :=
  OnFiles dataDir k q ∧ ¬Locking q

variable {stores : Memory × Memory} (hs : ShortPaths dataDir k)

include hs

private theorem peers_step {q : Request} (hq : Unlocking dataDir k q)
    (h : Peers dataDir k start locks stores s s') :
    (besideFiles Memory.answer q s).1 = (besideFiles Memory.answer q s').1 ∧
      Peers dataDir k start locks stores (besideFiles Memory.answer q s).2
        (besideFiles Memory.answer q s').2 := by
  obtain ⟨hfiles, hlocking⟩ := hq
  cases q with
  | note notice => exact ⟨rfl, h⟩
  | store call =>
    obtain ⟨key, rfl⟩ := hfiles
    have hsame : s.1.secrets.get? key = s'.1.secrets.get? key := by
      rw [h.store, h.store', h.secrets]
    exact ⟨congrArg Except.ok hsame, h⟩
  | file call =>
    obtain ⟨hreply, hafter⟩ := h.files.answer hs hfiles
      (fun p heq => hlocking (by rw [heq]; trivial))
      (fun inode heq => hlocking (by rw [heq]; trivial))
      (fun inode heq => hlocking (by rw [heq]; trivial))
    exact ⟨hreply, h.store, h.store', h.secrets, hafter⟩

private theorem twinned_unlocking {p : Program α} (hp : p.Only (Unlocking dataDir k)) :
    Twinned (Peers dataDir k start locks stores) p :=
  twinned_only hp fun _ hq _ _ h => peers_step hs hq h

variable {held : List Nat} (hheld : ∀ inode ∈ held, inode < start.1.nextInode)

include hheld

omit hs hheld in
private theorem tryWriteLock_opened {dir : Path} {m : Memory} {fs gs : FileSystem} {i : Nat}
    (hopen : fs.answer (.openLock (dir.join lockFileName)) = (.ok i, gs)) (hheld : gs.held = held) :
    (tryWriteLock dir).run (besideFiles Memory.answer) (m, fs) =
      if held.contains i then (.ok none, m, gs)
      else (.ok (some i), m, { gs with held := i :: held }) := by
  have hopened : besideFiles Memory.answer (.file (.openLock (dir.join lockFileName))) (m, fs) =
      (.ok i, m, gs) := by
    rw [besideFiles, hopen]
  subst hheld
  by_cases hmem : i ∈ gs.held
  · have hlock : besideFiles Memory.answer (.file (.tryLock i)) (m, gs) = (.ok false, m, gs) := by
      rw [besideFiles, answer_tryLock_held hmem]
    rw [if_pos (List.contains_iff_mem.2 hmem)]
    exact tryWriteLock_run_of hopened hlock
  · have hlock : besideFiles Memory.answer (.file (.tryLock i)) (m, gs) =
        (.ok true, m, { gs with held := i :: gs.held }) := by
      rw [besideFiles, answer_tryLock_free hmem]
    rw [if_neg fun hfound => hmem (List.contains_iff_mem.1 hfound)]
    exact tryWriteLock_run_of hopened hlock

private theorem peers_tryWriteLock (h : Peers dataDir k start (held, held) stores s s') :
    ∃ t t', Peers dataDir k start (held, held) stores t t' ∧
      ((∃ r, (r = .ok none ∨ ∃ e, r = .error e) ∧
        (tryWriteLock (exportDirs dataDir k).lock).run (besideFiles Memory.answer) s = (r, t) ∧
        (tryWriteLock (exportDirs dataDir k).lock).run (besideFiles Memory.answer) s' = (r, t')) ∨
      ∃ i i',
        (tryWriteLock (exportDirs dataDir k).lock).run (besideFiles Memory.answer) s =
          (.ok (some i), t.1, { t.2 with held := i :: held }) ∧
        (tryWriteLock (exportDirs dataDir k).lock).run (besideFiles Memory.answer) s' =
          (.ok (some i'), t'.1, { t'.2 with held := i' :: held })) := by
  obtain ⟨m, fs⟩ := s
  obtain ⟨m', fs'⟩ := s'
  rcases h.files.openLock hs with ⟨e, hopen, hopen'⟩ | ⟨i, i', gs, gs', hopen, hopen', hi, hafter⟩
  · refine ⟨_, _, h,
      .inl ⟨.error (.lock (exportDirs dataDir k).lock.text e), .inr ⟨_, rfl⟩, ?_, ?_⟩⟩
    · rw [tryWriteLock, run_bind, run_file, besideFiles, hopen]
      rfl
    · rw [tryWriteLock, run_bind, run_file, besideFiles, hopen']
      rfl
  · have hpeers : Peers dataDir k start (held, held) stores (m, gs) (m', gs') :=
      ⟨h.store, h.store', h.secrets, hafter⟩
    have hfree {inode : Nat} (hn : start.1.nextInode ≤ inode) : held.contains inode = false := by
      simpa using fun hmem => absurd (hheld inode hmem) (Nat.not_lt.2 hn)
    have hcontains : held.contains i = held.contains i' := by
      rcases hi with rfl | ⟨hi, hi'⟩
      · rfl
      · rw [hfree hi, hfree hi']
    have hrun := tryWriteLock_opened (m := m) hopen hafter.held
    have hrun' := tryWriteLock_opened (m := m') hopen' hafter.held'
    refine ⟨_, _, hpeers, ?_⟩
    cases hfound : held.contains i with
    | true =>
      rw [hfound, if_pos rfl] at hrun
      rw [← hcontains, hfound, if_pos rfl] at hrun'
      exact .inl ⟨_, .inl rfl, hrun, hrun'⟩
    | false =>
      rw [hfound] at hrun
      rw [← hcontains, hfound] at hrun'
      exact .inr ⟨i, i', hrun, hrun'⟩

/-- Work under the lock of an export directory comes to the same in both states. -/
private theorem twinned_withWriteLock {action : Program α}
    (haction : ∀ locks, Twinned (Peers dataDir k start locks stores) action) :
    Twinned (Peers dataDir k start (held, held) stores)
      (withWriteLock (exportDirs dataDir k).lock action) := by
  intro s s' h
  obtain ⟨t, t', hafter, ⟨r, hr, hrun, hrun'⟩ | ⟨i, i', hrun, hrun'⟩⟩ :=
    peers_tryWriteLock hs hheld h
  · rw [withWriteLock, run_bind, run_bind, hrun, hrun']
    rcases hr with rfl | ⟨e, rfl⟩ <;> exact ⟨rfl, hafter⟩
  · have hlocked : Peers dataDir k start (i :: held, i' :: held) stores
        (t.1, { t.2 with held := i :: held }) (t'.1, { t'.2 with held := i' :: held }) :=
      ⟨hafter.store, hafter.store', hafter.secrets, hafter.files.relock (i :: held, i' :: held)⟩
    obtain ⟨hresult, hworked⟩ := haction _ _ _ hlocked
    rw [withWriteLock, run_bind_ok hrun, run_bind_ok hrun']
    rcases hfirst : action.run (besideFiles Memory.answer) (t.1, { t.2 with held := i :: held })
      with ⟨r, u⟩
    rcases hsecond : action.run (besideFiles Memory.answer) (t'.1, { t'.2 with held := i' :: held })
      with ⟨r', u'⟩
    rw [hfirst, hsecond] at hresult hworked
    obtain rfl : r = r' := hresult
    have hreleased : Peers dataDir k start (held, held) stores
        (u.1, u.2.release i) (u'.1, u'.2.release i') := by
      refine ⟨hworked.store, hworked.store', hworked.secrets, ?_⟩
      have hunlocked := hworked.files.relock (held, held)
      rw [FileSystem.release, FileSystem.release, hworked.files.held, hworked.files.held']
      simpa using hunlocked
    have hattempt : action.attempt.run (besideFiles Memory.answer)
        (t.1, { t.2 with held := i :: held }) = (.ok r, u) := by
      rw [run_attempt, hfirst]
    have hattempt' : action.attempt.run (besideFiles Memory.answer)
        (t'.1, { t'.2 with held := i' :: held }) = (.ok r, u') := by
      rw [run_attempt, hsecond]
    rw [run_bind_ok hattempt, run_bind_ok hattempt', run_bind_ok (run_tryFile _),
      run_bind_ok (run_tryFile _)]
    cases r <;> exact ⟨rfl, hreleased⟩

omit hheld in
private theorem twinned_removeTree :
    Twinned (Peers dataDir k start locks stores) (removeTree (exportDirs dataDir k).lock) := by
  intro s s' h
  have hplan : Unlocking dataDir k (.file (.planRemoval (exportDirs dataDir k).lock)) :=
    ⟨.clears .plan, id⟩
  have hsame : s.2.planRemoval (exportDirs dataDir k).lock =
      s'.2.planRemoval (exportDirs dataDir k).lock := (peers_step hs hplan h).1
  have hrun {t : Memory × FileSystem} {r : Except IoError (List Removal)}
      (ht : t.2.planRemoval (exportDirs dataDir k).lock = r) :
      (Program.file (.planRemoval (exportDirs dataDir k).lock)).run
        (besideFiles Memory.answer) t = (r.mapError .io, t) := by
    rw [run_file, besideFiles, FileSystem.answer, ht]
  cases hsteps : s.2.planRemoval (exportDirs dataDir k).lock with
  | error e =>
    rw [removeTree, run_bind, run_bind, hrun hsteps, hrun (hsame ▸ hsteps)]
    exact ⟨rfl, h⟩
  | ok steps =>
    rw [removeTree, run_bind_ok (hrun hsteps), run_bind_ok (hrun (hsame ▸ hsteps))]
    refine twinned_unlocking hs (removeAll_only fun step hstep => ⟨?_, id⟩) s s' h
    exact owns_of_plan h.files.tree hs.key hsteps step hstep

private theorem twinned_removeExport :
    Twinned (Peers dataDir k start (held, held) stores) (removeExport dataDir k) := by
  have hnote {locks : List Nat × List Nat} (notice : Notice) :
      Twinned (Peers dataDir k start locks stores) (note notice) :=
    twinned_unlocking hs (only_note ⟨trivial, id⟩)
  refine .bind (twinned_unlocking hs (only_tryFile ⟨.clears .stat, id⟩)) fun found => ?_
  cases found with
  | error e =>
    dsimp only
    split
    · exact twinned_unlocking hs (only_pure _)
    · exact twinned_unlocking hs (only_fail _)
  | ok u =>
    refine .bind (twinned_withWriteLock hs hheld fun locks => ?_) fun removed =>
      twinned_unlocking hs (lockedOutcome_only (fun _ => ⟨trivial, id⟩) k removed)
    exact (hnote _).bind fun _ => twinned_removeTree hs

private theorem twinned_exportConfig (hkey : c.key = k) :
    Twinned (Peers dataDir k start (held, held) stores) (exportConfig dataDir c) := by
  subst hkey
  refine .bind (twinned_unlocking hs (collect_only fun _ _ => ⟨⟨_, rfl⟩, id⟩))
    fun artifacts => ?_
  refine .bind (twinned_unlocking hs (only_file ⟨.makeDirs, id⟩)) fun _ => ?_
  refine .bind (twinned_withWriteLock hs hheld fun locks => twinned_unlocking hs ?_) fun written =>
    twinned_unlocking hs (lockedOutcome_only (fun _ => ⟨trivial, id⟩) c.key written)
  exact writeArtifacts_only (fun artifact => ⟨.read artifact, id⟩)
    (fun artifact content => ⟨.write artifact content, id⟩) artifacts

private theorem twinned_work (hkey : c.key = k) :
    Twinned (Peers dataDir k start (held, held) stores) (fileWork dataDir c) := by
  subst hkey
  unfold fileWork
  split
  · exact twinned_unlocking hs (only_pure _)
  · split
    · exact twinned_removeExport hs hheld
    · exact twinned_exportConfig hs hheld rfl

end Twinned

section Work

variable {dataDir : Path} {c : ClusterConfig} {m : Memory} {fs fs' gs : FileSystem}
  {worked : Except Error Outcome}

/-- The work on the files of a config comes to the same, and to such trees again, where stores have
the same secrets and trees cannot be told apart. -/
theorem twinned_fileWork (m' : Memory) (hs : ShortPaths dataDir c.key)
    (hheld : ∀ inode ∈ fs.held, inode < fs.nextInode) (hsecrets : m.secrets = m'.secrets)
    (htwins : Twins dataDir c.key (fs, fs') (fs.held, fs.held) fs fs')
    (hwork : (fileWork dataDir c).run (besideFiles Memory.answer) (m, fs) = (worked, m, gs)) :
    ∃ gs', (fileWork dataDir c).run (besideFiles Memory.answer) (m', fs') = (worked, m', gs') ∧
      Twins dataDir c.key (fs, fs') (fs.held, fs.held) gs gs' := by
  have hpeers : Peers dataDir c.key (fs, fs') (fs.held, fs.held) (m, m') (m, fs) (m', fs') :=
    ⟨rfl, rfl, hsecrets, htwins⟩
  obtain ⟨hresult, hafter⟩ := twinned_work hs hheld rfl _ _ hpeers
  rw [hwork] at hresult hafter
  generalize (fileWork dataDir c).run (besideFiles Memory.answer) (m', fs') = r at hresult hafter
  obtain ⟨worked', m'', gs'⟩ := r
  obtain rfl : worked = worked' := hresult
  obtain rfl : m'' = m' := hafter.store'
  exact ⟨gs', rfl, hafter.files⟩

theorem kept_fileWork (hs : ShortPaths dataDir c.key) (htree : fs.IsTree)
    (hheld : ∀ inode ∈ fs.held, inode < fs.nextInode)
    (hwork : (fileWork dataDir c).run (besideFiles Memory.answer) (m, fs) = (worked, m, gs)) :
    gs.held = fs.held ∧ fs.nextInode ≤ gs.nextInode := by
  have hself : Twins dataDir c.key (fs, fs) (fs.held, fs.held) fs fs :=
    ⟨htree, htree, fun l _ => sameEntry_of_eq (htree.linkless l) rfl, Iff.rfl,
      .inl fun _ _ => ⟨rfl, rfl⟩, Nat.le_refl _, Nat.le_refl _, rfl, rfl⟩
  obtain ⟨gs', -, htwins⟩ := twinned_fileWork m hs hheld rfl hself hwork
  exact ⟨htwins.held, htwins.next⟩

end Work

end Relocation
