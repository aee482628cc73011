import Relocation.Proofs.Files.Linkless
import Relocation.Proofs.Files.Making
import Relocation.Proofs.Files.Names
import Relocation.Proofs.History
import Relocation.Proofs.Requests
import Relocation.Proofs.Runs

/-!
The parts of an export in a world where a file may also refuse to be read or to be opened. The lock
is taken or not in one of three ways (`tryWriteLock_run`), what is collected has no artifact twice
(`collect_distinct`), and artifacts are written up to the first file that refuses
(`writeArtifacts_run`).
-/

set_option autoImplicit false

namespace Relocation

open Files (FileSystem IoError Location)
open Files.FileSystem (readFile_eq_ok)
open Program

/-- Whether a request reads a file or opens it to write it. -/
def Request.Accesses : Request → Prop
  | .file (.read _) | .file (.write _ _) => True
  | _ => False

/-- A file that could not be read, or could not be opened to be written; a file that is not there
need not be read. -/
inductive Event.Fails {σ : Type} (path : Path) (e : IoError) : Event σ → Prop
  | read (s : σ) (there : e.isNotFound = false) : Fails path e ⟨s, .file (.read path), .error e⟩
  | write (s : σ) (text : String) : Fails path e ⟨s, .file (.write path text), .error e⟩

theorem Event.Fails.accesses {σ : Type} {path : Path} {e : IoError} {event : Event σ}
    (h : event.Fails path e) : event.request.Accesses := by
  cases h <;> trivial

/-- The world of a store beside a tree of files, except that a file may refuse to be read or to be
opened to be written. -/
structure Refusing {τ : Type} (store : StoreBehaviour τ) (world : World (τ × FileSystem)) :
    Prop where
  read : ∀ path s, world (.file (.read path)) s = besideFiles store (.file (.read path)) s ∨
    ∃ e, world (.file (.read path)) s = (.error e, s)
  write : ∀ path text s,
    world (.file (.write path text)) s = besideFiles store (.file (.write path text)) s ∨
      ∃ e, world (.file (.write path text)) s = (.error e, s)
  other : ∀ q s, ¬q.Accesses → world q s = besideFiles store q s

variable {τ : Type} {store : StoreBehaviour τ} {world : World (τ × FileSystem)}

theorem refusing_besideFiles (store : StoreBehaviour τ) : Refusing store (besideFiles store) :=
  ⟨fun _ _ => .inl rfl, fun _ _ _ => .inl rfl, fun _ _ _ => rfl⟩

section Held

variable {σ α : Type} {world : World σ} {dir : Path} {action : Program α} {s t : σ}

theorem history_withWriteLock_untaken {r : Except Error (Option Nat)}
    (h : (tryWriteLock dir).run world s = (r, t)) (hr : ∀ inode, r ≠ .ok (some inode)) :
    (withWriteLock dir action).history world s = (tryWriteLock dir).history world s := by
  rw [withWriteLock, history_bind, h]
  rcases r with e | _ | inode
  · exact List.append_nil _
  · exact List.append_nil _
  · exact absurd rfl (hr inode)

theorem history_withWriteLock_none (h : ((withWriteLock dir action).run world s).1 = .ok none) :
    (withWriteLock dir action).history world s = (tryWriteLock dir).history world s := by
  rcases hrun : (tryWriteLock dir).run world s with ⟨e | _ | inode, t⟩
  · exact history_withWriteLock_untaken hrun nofun
  · exact history_withWriteLock_untaken hrun nofun
  · rw [run_withWriteLock_taken hrun] at h
    cases hacted : (action.run world t).1 <;> simp [hacted, Except.map] at h

theorem history_withWriteLock_taken {inode : Nat}
    (h : (tryWriteLock dir).run world s = (.ok (some inode), t)) :
    (withWriteLock dir action).history world s =
      (tryWriteLock dir).history world s ++ action.history world t ++
        [⟨(action.run world t).2, .file (.release inode),
          (world (.file (.release inode)) (action.run world t).2).1⟩] := by
  rw [withWriteLock, history_bind, h, List.append_assoc]
  refine congrArg _ ?_
  show (action.attempt >>= _).history world t = _
  rw [history_bind, history_attempt, run_attempt]
  refine congrArg _ ?_
  generalize action.run world t = ended
  obtain ⟨r, u⟩ := ended
  cases r with
  | ok a => rfl
  | error e => rfl

end Held

section Places

theorem Artifact.pathName_fileName (a : Artifact) : PathName a.fileName :=
  pathNames_artifact a _ (by simp)

theorem Artifact.fileName_inj {a b : Artifact} (h : a.fileName = b.fileName) : a = b := by
  revert h
  cases a <;> cases b <;> decide

theorem filesDir_named (dataDir : Path) (key : ObjectKey) :
    (exportDirs dataDir key).files.parts = (exportDirs dataDir key).lock.stem ++ ["files"] := by
  have hname : PathName "files" := pathNames_files "files" (List.mem_singleton_self _)
  change ((exportDirs dataDir key).lock.join "files").parts = _
  rw [Path.join_name _ hname]

theorem not_fileAt_of_ne {fs fs' : FileSystem} {dir dir' : Path} {x y : String} {l : Location}
    (hl : fs.Linkless) (hl' : fs'.Linkless) (hx : PathName x) (hy : PathName y) (hne : x ≠ y)
    (hat : fs.FileAt (dir.join x) l) : ¬fs'.FileAt (dir'.join y) l := by
  intro hat'
  have hlast := (hat.getLast? hl).symm.trans (hat'.getLast? hl')
  rw [Path.getLast?_join _ hx, Path.getLast?_join _ hy] at hlast
  exact hne (Option.some.inj hlast)

theorem Artifact.not_fileAt_of_ne {fs fs' : FileSystem} {dir : Path} {a b : Artifact} {l : Location}
    (hl : fs.Linkless) (hl' : fs'.Linkless) (hne : a ≠ b)
    (hat : fs.FileAt (dir.join a.fileName) l) : ¬fs'.FileAt (dir.join b.fileName) l :=
  Relocation.not_fileAt_of_ne hl hl' a.pathName_fileName b.pathName_fileName
    (fun h => hne (fileName_inj h)) hat

end Places

section Locking

variable {fs fs' fs'' : FileSystem} {s s' : τ} {dir : Path} {inode : Nat}

theorem Refusing.run_file (h : Refusing store world) (call : FileCall) (wrap : IoError → Error)
    (hcall : ¬(Request.file call).Accesses) (s : τ) (fs : FileSystem) :
    (Program.file call wrap).run world (s, fs) =
      ((fs.answer call).1.mapError wrap, s, (fs.answer call).2) := by
  rw [Program.run_file, h.other _ _ hcall]
  rfl

theorem Refusing.answer_of_file (h : Refusing store world) {call : FileCall}
    {wrap : IoError → Error} {r : call.Result} (hcall : ¬(Request.file call).Accesses)
    (hrun : (Program.file call wrap).run world (s, fs) = (.ok r, s', fs')) :
    s' = s ∧ fs.answer call = (.ok r, fs') := by
  have hworld := run_file_eq_ok hrun
  rw [h.other _ _ hcall] at hworld
  obtain ⟨hreply, hstate⟩ := Prod.mk.inj hworld
  obtain ⟨rfl, rfl⟩ := Prod.mk.inj hstate
  exact ⟨rfl, Prod.ext hreply rfl⟩

section Opened

variable (h : Refusing store world)
  (hopen : fs.answer (.openLock (dir.join lockFileName)) = (.ok inode, fs'))

include h hopen

theorem tryWriteLock_run_held (hheld : inode ∈ fs'.held) :
    (tryWriteLock dir).run world (s, fs) = (.ok none, s, fs') := by
  have hopened := h.other (.file (.openLock (dir.join lockFileName))) (s, fs) id
  have hlock := h.other (.file (.tryLock inode)) (s, fs') id
  rw [besideFiles, hopen] at hopened
  rw [besideFiles, Files.FileSystem.answer_tryLock_held hheld] at hlock
  exact tryWriteLock_run_of hopened hlock

theorem tryWriteLock_run_free (hfree : inode ∉ fs'.held) :
    (tryWriteLock dir).run world (s, fs) =
      (.ok (some inode), s, { fs' with held := inode :: fs'.held }) := by
  have hopened := h.other (.file (.openLock (dir.join lockFileName))) (s, fs) id
  have hlock := h.other (.file (.tryLock inode)) (s, fs') id
  rw [besideFiles, hopen] at hopened
  rw [besideFiles, Files.FileSystem.answer_tryLock_free hfree] at hlock
  exact tryWriteLock_run_of hopened hlock

end Opened

/-- An attempt to take the write lock of a directory: the lock file cannot be opened, or another
holds the lock, or it is taken. -/
theorem tryWriteLock_run (h : Refusing store world) (dir : Path) (s : τ) (fs : FileSystem) :
    (∃ e, (tryWriteLock dir).run world (s, fs) = (.error (.lock dir.text e), s, fs)) ∨
      ∃ inode fs', fs.answer (.openLock (dir.join lockFileName)) = (.ok inode, fs') ∧
        (inode ∈ fs'.held ∧ (tryWriteLock dir).run world (s, fs) = (.ok none, s, fs') ∨
          inode ∉ fs'.held ∧ (tryWriteLock dir).run world (s, fs) =
            (.ok (some inode), s, { fs' with held := inode :: fs'.held })) := by
  have hopened : (∃ e, fs.answer (.openLock (dir.join lockFileName)) = (.error e, fs)) ∨
      ∃ inode fs', fs.answer (.openLock (dir.join lockFileName)) = (.ok inode, fs') := by
    rw [Files.FileSystem.answer]
    split
    · exact .inr ⟨_, _, rfl⟩
    · exact .inl ⟨_, rfl⟩
  rcases hopened with ⟨e, he⟩ | ⟨inode, fs', hopen⟩
  · refine .inl ⟨e, ?_⟩
    rw [tryWriteLock, run_bind, h.run_file _ _ id, he]
    rfl
  · refine .inr ⟨inode, fs', hopen, ?_⟩
    by_cases hheld : inode ∈ fs'.held
    · exact .inl ⟨hheld, tryWriteLock_run_held h hopen hheld⟩
    · exact .inr ⟨hheld, tryWriteLock_run_free h hopen hheld⟩

/-- Work under a write lock that was taken comes to what the action comes to, and gives the lock
back. -/
theorem withWriteLock_run_locked (h : Refusing store world) {α : Type} {action : Program α}
    {r : Except Error α}
    (htaken : (tryWriteLock dir).run world (s, fs) = (.ok (some inode), s, fs'))
    (haction : action.run world (s, fs') = (r, s', fs'')) :
    (withWriteLock dir action).run world (s, fs) = (r.map some, s', fs''.release inode) := by
  rw [run_withWriteLock_taken htaken, haction, h.other _ _ id]
  rfl

theorem mem_history_withWriteLock {α : Type} {action : Program α} {e : Event (τ × FileSystem)}
    (haccess : e.request.Accesses)
    (he : e ∈ (withWriteLock dir action).history world (s, fs)) :
    ∃ inode t, (tryWriteLock dir).run world (s, fs) = (.ok (some inode), t) ∧
      e ∈ action.history world t := by
  rcases mem_history_bind.1 he with he | ⟨taken, t, htaken, he⟩
  · have hquiet : (tryWriteLock dir).Only fun q => ¬q.Accesses :=
      .bind (only_file id) fun _ => .bind (only_file id) fun _ => only_pure _
    exact absurd haccess (hquiet.history _ e he)
  · cases taken with
    | none => exact nomatch he
    | some inode =>
      refine ⟨inode, t, htaken, ?_⟩
      rcases mem_history_bind.1 he with he | ⟨result, u, -, he⟩
      · rwa [history_attempt] at he
      · rcases mem_history_bind.1 he with he | ⟨_, v, -, he⟩
        · obtain rfl := List.mem_singleton.1 he
          exact haccess.elim
        · cases result <;> exact nomatch he

end Locking

section Collecting

variable {c : ClusterConfig}

theorem collect_reads (c : ClusterConfig) :
    (collect c).Only fun q => ∃ key, q = .store (.getSecret key) :=
  collect_only fun ref _ => ⟨ref.2.key, rfl⟩

private def HasTree (fs : FileSystem) (a : τ × FileSystem) : Prop := a.2 = fs

theorem collect_tree (h : Refusing store world) {s s' : τ} {fs fs' : FileSystem}
    {r : Except Error (List (Artifact × String))}
    (hrun : (collect c).run world (s, fs) = (r, s', fs')) : fs' = fs := by
  have htree : HasTree fs ((collect c).run world (s, fs)).2 := by
    refine (collect_reads c).run_inv ?_ rfl
    rintro a q ha ⟨key, rfl⟩
    rw [h.other _ _ id]
    exact ha
  rwa [hrun] at htree

theorem secretTexts_artifacts {σ : Type} {world : World σ} {s t : σ}
    {refs : List (Artifact × SecretReference)} {texts : List (Artifact × String)}
    (h : (secretTexts refs).run world s = (.ok texts, t)) :
    texts.map Prod.fst = refs.map Prod.fst := by
  induction refs generalizing texts s t with
  | nil =>
    obtain ⟨htexts, -⟩ := Prod.mk.inj h
    rw [← Except.ok.inj htexts]
    rfl
  | cons ref rest ih =>
    obtain ⟨text, s1, -, h⟩ := run_bind_eq_ok h
    obtain ⟨texts', s2, hrest, h⟩ := run_bind_eq_ok h
    obtain ⟨htexts, -⟩ := Prod.mk.inj h
    rw [← Except.ok.inj htexts, List.map_cons, List.map_cons, ih hrest]

/-- No artifact is collected twice. -/
theorem collect_distinct {σ : Type} {world : World σ} {s t : σ}
    {artifacts : List (Artifact × String)}
    (h : (collect c).run world s = (.ok artifacts, t)) : (artifacts.map Prod.fst).Nodup := by
  obtain ⟨d, s1, -, h⟩ := run_bind_eq_ok h
  obtain ⟨texts, s2, htexts, h⟩ := run_bind_eq_ok h
  obtain ⟨hartifacts, -⟩ := Prod.mk.inj h
  have hrefs : (Artifact.descriptor :: c.spec.secretReferences.map Prod.fst).Nodup := by
    unfold ClusterConfigSpec.secretReferences
    cases c.spec.relocation.apiCertRef <;> cases c.spec.relocation.ingressCertRef <;>
      cases c.spec.relocation.pullSecretRef <;> cases c.spec.acmRegistration <;> simp
  rw [← Except.ok.inj hartifacts, List.map_cons, secretTexts_artifacts htexts]
  exact hrefs

end Collecting

section Writing

variable {fs fs' fs'' : FileSystem} {dir : Path} {text : String} {artifact : Artifact}
  {artifacts done : List (Artifact × String)}

/-- An attempt to write a file: how it ends, and that what fails on the way ends it. If it does not
fail the file holds the text already or was written, else nothing is changed. -/
structure Attempts (world : World (τ × FileSystem)) (path : Path) (text : String)
    (p : Program (Except IoError Unit)) (s : τ) (fs : FileSystem) (r : Except IoError Unit)
    (fs' : FileSystem) : Prop where
  run : p.run world (s, fs) = (.ok r, s, fs')
  fails : ∀ event ∈ p.history world (s, fs), ∀ path' e, event.Fails path' e →
    path' = path ∧ r = .error e
  holds : r = .ok () → fs' = fs ∧ fs.readFile path = .ok text ∨
    fs.writeFile Files.artifactMode path text = .ok fs'
  refused : ∀ e, r = .error e → fs' = fs

private theorem attempts_write (h : Refusing store world) (path : Path) (text : String) (s : τ)
    (fs : FileSystem) :
    ∃ r fs', Attempts world path text (tryFile (.write path text)) s fs r fs' := by
  have hanswer : ∃ r fs', world (.file (.write path text)) (s, fs) = (r, s, fs') ∧
      (r = .ok () → fs.writeFile Files.artifactMode path text = .ok fs') ∧
      ∀ e, r = .error e → fs' = fs := by
    rcases h.write path text (s, fs) with hsame | ⟨e, he⟩
    · rw [hsame, besideFiles, Files.FileSystem.answer]
      cases fs.writeFile Files.artifactMode path text with
      | ok fs' => exact ⟨.ok (), fs', rfl, fun _ => rfl, by simp⟩
      | error e => exact ⟨.error e, fs, rfl, by simp, fun _ _ => rfl⟩
    · exact ⟨.error e, fs, he, by simp, fun _ _ => rfl⟩
  obtain ⟨r, fs', hworld, hholds, hrefused⟩ := hanswer
  refine ⟨r, fs', by rw [run_tryFile, hworld], fun event hevent path' e hfails => ?_,
    fun hr => .inr (hholds hr), hrefused⟩
  obtain rfl := List.mem_singleton.1 hevent
  rw [hworld] at hfails
  cases hfails
  exact ⟨rfl, rfl⟩

private theorem Attempts.after_read {path : Path} {s : τ} {r : Except IoError Unit}
    {next : Except IoError String → Program (Except IoError Unit)} {found : Except IoError String}
    (hworld : world (.file (.read path)) (s, fs) = (found, s, fs))
    (hfound : ∀ e, found = .error e → e.isNotFound = false → r = .error e)
    (h : Attempts world path text (next found) s fs r fs') :
    Attempts world path text (tryFile (.read path) >>= next) s fs r fs' := by
  have hrun : (tryFile (.read path)).run world (s, fs) = (.ok found, s, fs) := by
    rw [run_tryFile, hworld]
  refine ⟨(run_bind_ok hrun).trans h.run, fun event hevent path' e hfails => ?_, h.holds,
    h.refused⟩
  rcases mem_history_bind.1 hevent with hevent | ⟨_, t, hread, hevent⟩
  · obtain rfl := List.mem_singleton.1 hevent
    rw [hworld] at hfails
    cases hfails with
    | read _ there => exact ⟨rfl, hfound e rfl there⟩
  · cases hrun.symm.trans hread
    exact h.fails event hevent path' e hfails

theorem attempts_writeIfChanged (h : Refusing store world) (path : Path) (text : String) (s : τ)
    (fs : FileSystem) :
    ∃ r fs', Attempts world path text (writeIfChanged path text) s fs r fs' := by
  have hread : ∃ found, world (.file (.read path)) (s, fs) = (found, s, fs) ∧
      ∀ old, found = .ok old → fs.readFile path = .ok old := by
    rcases h.read path (s, fs) with hsame | ⟨e, he⟩
    · exact ⟨_, hsame, fun _ => id⟩
    · exact ⟨.error e, he, nofun⟩
  have still (r : Except IoError Unit) (hr : r = .ok () → fs.readFile path = .ok text) :
      Attempts world path text (pure r) s fs r fs :=
    ⟨rfl, fun _ he => (List.not_mem_nil he).elim, fun heq => .inl ⟨rfl, hr heq⟩, fun _ _ => rfl⟩
  obtain ⟨found, hworld, hfound⟩ := hread
  obtain ⟨r, fs', hwrite⟩ := attempts_write h path text s fs
  cases found with
  | ok old =>
    by_cases hold : old = text
    · refine ⟨.ok (), fs, .after_read hworld nofun ?_⟩
      simp only [hold, if_true]
      exact still (.ok ()) fun _ => hold ▸ hfound old rfl
    · refine ⟨r, fs', .after_read hworld nofun ?_⟩
      simp only [hold, if_false]
      exact hwrite
  | error e =>
    cases hmissing : e.isNotFound with
    | true =>
      refine ⟨r, fs', .after_read hworld (fun e' heq there => ?_) ?_⟩
      · cases heq
        simp [hmissing] at there
      · simp only [hmissing, if_true]
        exact hwrite
    | false =>
      refine ⟨.error e, fs, .after_read hworld (fun e' heq _ => ?_) ?_⟩
      · cases heq
        rfl
      · simp only [hmissing]
        exact still (.error e) nofun

/-- Artifacts were written into a directory: their files hold their texts, and nothing else in the
tree is different. -/
structure Wrote (dir : Path) (artifacts : List (Artifact × String)) (fs fs' : FileSystem) :
    Prop where
  builds : fs.Builds fs'
  linkless : fs'.Linkless
  reads : ∀ artifact text, (artifact, text) ∈ artifacts →
    fs'.readFile (dir.join artifact.fileName) = .ok text
  beside : ∀ l, (∀ artifact ∈ artifacts.map Prod.fst,
    ¬fs'.FileAt (dir.join artifact.fileName) l) → fs'.entries.get? l = fs.entries.get? l

private theorem wrote_none (hl : fs.Linkless) : Wrote dir [] fs fs :=
  ⟨.refl fs, hl, fun _ _ hmem => (List.not_mem_nil hmem).elim, fun _ _ => rfl⟩

private theorem wrote_kept (hl : fs.Linkless)
    (hread : fs.readFile (dir.join artifact.fileName) = .ok text) :
    Wrote dir [(artifact, text)] fs fs where
  builds := .refl fs
  linkless := hl
  reads := by simpa using hread
  beside _ _ := rfl

private theorem wrote_written (hl : fs.Linkless)
    (h : fs.writeFile Files.artifactMode (dir.join artifact.fileName) text = .ok fs') :
    Wrote dir [(artifact, text)] fs fs' := by
  obtain ⟨l, inode, mode, hentries, hresolve, -⟩ := Files.FileSystem.writeFile_eq_ok h
  refine ⟨?_, Files.FileSystem.linkless_writeFile hl h, ?_, fun l' hnot => ?_⟩
  · have hbuilds : fs.Builds (fs.answer (.write (dir.join artifact.fileName) text)).2 :=
      Files.FileSystem.builds_answer (by simp) (by simp) (by simp)
    rwa [Files.FileSystem.answer, h] at hbuilds
  · simpa using Files.FileSystem.readFile_of_write h
  · have hne : l' ≠ l := by
      rintro rfl
      exact hnot artifact (by simp) ⟨inode, mode, text, hresolve⟩
    rw [hentries, Table.get?_insert_of_ne _ _ hne]

private theorem Wrote.readFile (h : Wrote dir done fs fs') (hl : fs.Linkless)
    (hnot : artifact ∉ done.map Prod.fst)
    (hread : fs.readFile (dir.join artifact.fileName) = .ok text) :
    fs'.readFile (dir.join artifact.fileName) = .ok text := by
  obtain ⟨l, inode, mode, hresolve⟩ := readFile_eq_ok.1 hread
  have hget : fs.entries.get? l = some (.file inode mode text) := by
    have hshows : fs.Shows (.ok (.file l inode mode text)) :=
      hresolve ▸ Files.FileSystem.resolve_shows _
    exact hshows
  refine readFile_eq_ok.2 ⟨l, inode, mode,
    Files.FileSystem.resolve_file_grows h.builds.toGrows hresolve ?_⟩
  rw [h.beside l fun other hother => ?_, hget]
  have hne : artifact ≠ other := by
    rintro rfl
    exact hnot hother
  exact Artifact.not_fileAt_of_ne hl h.linkless hne ⟨inode, mode, text, hresolve⟩

private theorem Wrote.cons (hfirst : Wrote dir [(artifact, text)] fs fs')
    (hlater : Wrote dir done fs' fs'') (hnot : artifact ∉ done.map Prod.fst) :
    Wrote dir ((artifact, text) :: done) fs fs'' where
  builds := ⟨hfirst.builds.toGrows.trans hlater.builds.toGrows,
    hlater.builds.held.trans hfirst.builds.held⟩
  linkless := hlater.linkless
  reads other text' hmem := by
    rcases List.mem_cons.1 hmem with heq | hmem
    · obtain ⟨rfl, rfl⟩ := Prod.mk.inj heq
      exact hlater.readFile hfirst.linkless hnot (hfirst.reads _ _ (by simp))
    · exact hlater.reads other text' hmem
  beside l hbeside := by
    rw [hlater.beside l fun other hother => hbeside other (by simp [hother])]
    refine hfirst.beside l fun other hother hat => ?_
    obtain rfl : other = artifact := by simpa using hother
    exact hbeside other (by simp) (hat.grows hlater.builds.toGrows)

/-- Artifacts are written in their order up to the first whose file refuses, and the error names
it. -/
theorem writeArtifacts_run (h : Refusing store world) (dir : Path)
    (hdistinct : (artifacts.map Prod.fst).Nodup) (hl : fs.Linkless) (s : τ) :
    ∃ done rest r fs', artifacts = done ++ rest ∧
      (writeArtifacts dir artifacts).run world (s, fs) = (r, s, fs') ∧
      Wrote dir done fs fs' ∧ (r = .ok () → rest = []) ∧
      ∀ event ∈ (writeArtifacts dir artifacts).history world (s, fs), ∀ path e,
        event.Fails path e → ∃ artifact text later, rest = (artifact, text) :: later ∧
          path = dir.join artifact.fileName ∧ r = .error (.artifact artifact.title e) := by
  induction artifacts generalizing fs with
  | nil =>
    exact ⟨[], [], .ok (), fs, rfl, rfl, wrote_none hl, fun _ => rfl, fun _ he => nomatch he⟩
  | cons first rest ih =>
    obtain ⟨artifact, text⟩ := first
    obtain ⟨hnot, hrest⟩ := List.nodup_cons.1 hdistinct
    obtain ⟨result, fs1, hattempt⟩ :=
      attempts_writeIfChanged h (dir.join artifact.fileName) text s fs
    rw [writeArtifacts, history_bind, hattempt.run, run_bind_ok hattempt.run]
    cases result with
    | error e =>
      obtain rfl : fs1 = fs := hattempt.refused e rfl
      refine ⟨[], (artifact, text) :: rest, .error (.artifact artifact.title e), fs1, rfl, rfl,
        wrote_none hl, nofun, fun event hevent path e' hfail => ?_⟩
      rcases List.mem_append.1 hevent with hevent | hevent
      · obtain ⟨rfl, heq⟩ := hattempt.fails event hevent path e' hfail
        cases heq
        exact ⟨artifact, text, rest, rfl, rfl, rfl⟩
      · exact nomatch hevent
    | ok u =>
      have hone : Wrote dir [(artifact, text)] fs fs1 := by
        rcases hattempt.holds rfl with ⟨rfl, hread⟩ | hwrite
        · exact wrote_kept hl hread
        · exact wrote_written hl hwrite
      obtain ⟨done, rest', r, fs', rfl, hlater, hwrote, hall, hfails'⟩ := ih hrest hone.linkless
      have hnot' : artifact ∉ done.map Prod.fst := fun hmem => hnot (by simp_all)
      refine ⟨(artifact, text) :: done, rest', r, fs', rfl, hlater, hone.cons hwrote hnot', hall,
        fun event hevent path e hfail => ?_⟩
      rcases List.mem_append.1 hevent with hevent | hevent
      · exact nomatch (hattempt.fails event hevent path e hfail).2
      · exact hfails' event hevent path e hfail

end Writing

section Ends

variable {dataDir : Path} {c : ClusterConfig} {s s' s'' : τ} {fs fs' made opened : FileSystem}
  {artifacts : List (Artifact × String)} {inode : Nat}

/-- An export that has opened its lock file: what it has collected, and the tree once the
directories were made and once the lock file was opened. -/
structure Preparing (world : World (τ × FileSystem)) (dataDir : Path) (c : ClusterConfig) (s : τ)
    (fs : FileSystem) (artifacts : List (Artifact × String)) (s' : τ) (made opened : FileSystem)
    (inode : Nat) : Prop where
  collected : (collect c).run world (s, fs) = (.ok artifacts, s', fs)
  directories : fs.makeDirs Files.privateDirMode (exportDirs dataDir c.key).files = (.ok (), made)
  lockFile : made.answer (.openLock ((exportDirs dataDir c.key).lock.join lockFileName)) =
    (.ok inode, opened)

section Preparing

variable (h : Preparing world dataDir c s fs artifacts s' made opened inode)

include h

theorem Preparing.made_linkless (hl : fs.Linkless) : made.Linkless := by
  have hlinkless := Files.FileSystem.linkless_makeDirs hl Files.privateDirMode
    (exportDirs dataDir c.key).files
  rwa [h.directories] at hlinkless

theorem Preparing.opened_linkless (hl : fs.Linkless) : opened.Linkless :=
  Files.FileSystem.linkless_openFile (h.made_linkless hl)
    (Files.FileSystem.openLock_eq_ok h.lockFile)

theorem Preparing.made_extends : Files.FileSystem.Extends Files.privateDirMode fs made := by
  have hextends := Files.FileSystem.extends_makeDirs Files.privateDirMode
    (exportDirs dataDir c.key).files fs
  rwa [h.directories] at hextends

theorem Preparing.made_builds : fs.Builds made := by
  have hbuilds : fs.Builds (fs.answer (.makeDirs (exportDirs dataDir c.key).files)).2 :=
    Files.FileSystem.builds_answer (by simp) (by simp) (by simp)
  rwa [Files.FileSystem.answer, h.directories] at hbuilds

theorem Preparing.opened_builds : made.Builds opened := by
  have hbuilds : made.Builds
      (made.answer (.openLock ((exportDirs dataDir c.key).lock.join lockFileName))).2 :=
    Files.FileSystem.builds_answer (by simp) (by simp) (by simp)
  rwa [h.lockFile] at hbuilds

end Preparing

theorem exportConfig_run_locked (h : Refusing store world)
    (prepared : Preparing world dataDir c s fs artifacts s' made opened inode)
    (free : inode ∉ opened.held) {r : Except Error Unit}
    (writing : (writeArtifacts (exportDirs dataDir c.key).files artifacts).run world
      (s', { opened with held := inode :: opened.held }) = (r, s'', fs')) :
    (exportConfig dataDir c).run world (s, fs) =
      (r.map fun _ => .settled, s'', fs'.release inode) := by
  have hmake := h.run_file (.makeDirs (exportDirs dataDir c.key).files) .io id s' fs
  rw [Files.FileSystem.answer, prepared.directories] at hmake
  have hlocked := withWriteLock_run_locked h
    (tryWriteLock_run_free h prepared.lockFile free) writing
  rw [exportConfig, run_bind_ok prepared.collected, run_bind_ok hmake, run_bind, hlocked]
  cases r <;> rfl

/-- How an export ends: something could not be collected, the directories could not be made, the
lock file could not be opened, another held the lock, or the artifacts were written, all of them or
as far as their files let them. -/
inductive ExportEnding (world : World (τ × FileSystem)) (dataDir : Path) (c : ClusterConfig) (s : τ)
    (fs : FileSystem) : Except Error Outcome → τ × FileSystem → Prop
  | uncollected {e : Error} {s' : τ}
      (collected : (collect c).run world (s, fs) = (.error e, s', fs)) :
      ExportEnding world dataDir c s fs (.error e) (s', fs)
  | unmade {e : IoError} {s' : τ} {made : FileSystem} {artifacts : List (Artifact × String)}
      (collected : (collect c).run world (s, fs) = (.ok artifacts, s', fs))
      (directories : fs.makeDirs Files.privateDirMode (exportDirs dataDir c.key).files =
        (.error e, made)) :
      ExportEnding world dataDir c s fs (.error (.io e)) (s', made)
  | unopened {e : IoError} {s' : τ} {made : FileSystem} {artifacts : List (Artifact × String)}
      (collected : (collect c).run world (s, fs) = (.ok artifacts, s', fs))
      (directories : fs.makeDirs Files.privateDirMode (exportDirs dataDir c.key).files =
        (.ok (), made)) :
      ExportEnding world dataDir c s fs (.error (.lock (exportDirs dataDir c.key).lock.text e))
        (s', made)
  | busy {s' : τ} {made opened : FileSystem} {artifacts : List (Artifact × String)} {inode : Nat}
      (prepared : Preparing world dataDir c s fs artifacts s' made opened inode)
      (held : inode ∈ opened.held) :
      ExportEnding world dataDir c s fs (.ok (.requeueAfter lockRetryDelay)) (s', opened)
  | written {s' s'' : τ} {made opened after : FileSystem} {artifacts : List (Artifact × String)}
      {inode : Nat} (prepared : Preparing world dataDir c s fs artifacts s' made opened inode)
      (free : inode ∉ opened.held)
      (writing : (writeArtifacts (exportDirs dataDir c.key).files artifacts).run world
        (s', { opened with held := inode :: opened.held }) = (.ok (), s'', after)) :
      ExportEnding world dataDir c s fs (.ok .settled) (s'', after.release inode)
  | failed {e : Error} {s' s'' : τ} {made opened after : FileSystem}
      {artifacts : List (Artifact × String)} {inode : Nat}
      (prepared : Preparing world dataDir c s fs artifacts s' made opened inode)
      (free : inode ∉ opened.held)
      (writing : (writeArtifacts (exportDirs dataDir c.key).files artifacts).run world
        (s', { opened with held := inode :: opened.held }) = (.error e, s'', after)) :
      ExportEnding world dataDir c s fs (.error e) (s'', after.release inode)

private def HasLocks (held : List Nat) (a : τ × FileSystem) : Prop := a.2.held = held

private theorem writeArtifacts_held (h : Refusing store world) {dir : Path}
    {r : Except Error Unit}
    (hrun : (writeArtifacts dir artifacts).run world (s, fs) = (r, s', fs')) :
    fs'.held = fs.held := by
  have honly : (writeArtifacts dir artifacts).Only Request.Accesses :=
    writeArtifacts_only (fun _ => trivial) (fun _ _ => trivial) artifacts
  have hheld : HasLocks fs.held ((writeArtifacts dir artifacts).run world (s, fs)).2 := by
    refine honly.run_inv ?_ rfl
    rintro ⟨t, g⟩ q hg hq
    cases q with
    | file call =>
      cases call with
      | read path =>
        rcases h.read path (t, g) with hsame | ⟨e, he⟩
        · rwa [hsame]
        · rwa [he]
      | write path text =>
        rcases h.write path text (t, g) with hsame | ⟨e, he⟩
        · have hbuilds : g.Builds (g.answer (.write path text)).2 :=
            Files.FileSystem.builds_answer (by simp) (by simp) (by simp)
          rw [hsame]
          exact hbuilds.held.trans hg
        · rwa [he]
      | _ => exact hq.elim
    | store call => exact hq.elim
    | note notice => exact hq.elim
  rwa [hrun] at hheld

theorem ExportEnding.held (h : Refusing store world) {r : Except Error Outcome}
    {t : τ × FileSystem} (hending : ExportEnding world dataDir c s fs r t) :
    t.2.held = fs.held := by
  have hmakes : fs.Builds (fs.answer (.makeDirs (exportDirs dataDir c.key).files)).2 :=
    Files.FileSystem.builds_answer (by simp) (by simp) (by simp)
  have hworks {artifacts s' made opened inode after r s''}
      (prepared : Preparing world dataDir c s fs artifacts s' made opened inode)
      (writing : (writeArtifacts (exportDirs dataDir c.key).files artifacts).run world
        (s', { opened with held := inode :: opened.held }) = (r, s'', after)) :
      (after.release inode).held = fs.held := by
    have hafter : after.held = inode :: opened.held := writeArtifacts_held h writing
    rw [Files.FileSystem.release, hafter, List.erase_cons_head]
    exact prepared.opened_builds.held.trans prepared.made_builds.held
  cases hending with
  | uncollected => rfl
  | unmade _ directories =>
    rw [Files.FileSystem.answer, directories] at hmakes
    exact hmakes.held
  | unopened _ directories =>
    rw [Files.FileSystem.answer, directories] at hmakes
    exact hmakes.held
  | busy prepared => exact prepared.opened_builds.held.trans prepared.made_builds.held
  | written prepared _ writing => exact hworks prepared writing
  | failed prepared _ writing => exact hworks prepared writing

theorem exportConfig_ending (h : Refusing store world) (dataDir : Path) (c : ClusterConfig) (s : τ)
    (fs : FileSystem) :
    ExportEnding world dataDir c s fs ((exportConfig dataDir c).run world (s, fs)).1
      ((exportConfig dataDir c).run world (s, fs)).2 := by
  rcases hcollect : (collect c).run world (s, fs) with ⟨e | artifacts, s', fs'⟩ <;>
    obtain rfl := (collect_tree h hcollect).symm
  · rw [exportConfig, run_bind, hcollect]
    exact .uncollected hcollect
  have hmake := h.run_file (.makeDirs (exportDirs dataDir c.key).files) .io id s' fs
  rcases hmade : fs.makeDirs Files.privateDirMode (exportDirs dataDir c.key).files with
    ⟨e | u, made⟩ <;> rw [Files.FileSystem.answer, hmade] at hmake
  · rw [exportConfig, run_bind_ok hcollect, run_bind, hmake]
    exact .unmade hcollect hmade
  rcases tryWriteLock_run h (exportDirs dataDir c.key).lock s' made with
    ⟨e, hlock⟩ | ⟨inode, opened, hopen, ⟨hheld, hlock⟩ | ⟨hfree, hlock⟩⟩
  · rw [exportConfig, run_bind_ok hcollect, run_bind_ok hmake, run_bind, withWriteLock, run_bind,
      hlock]
    exact .unopened hcollect hmade
  · have hnone : (withWriteLock (exportDirs dataDir c.key).lock
        (writeArtifacts (exportDirs dataDir c.key).files artifacts)).run world (s', made) =
          (.ok none, s', opened) := run_bind_ok hlock
    rw [exportConfig, run_bind_ok hcollect, run_bind_ok hmake, run_bind_ok hnone, lockedOutcome,
      run_bind, run_note, h.other _ _ id]
    exact .busy ⟨hcollect, hmade, hopen⟩ hheld
  · rcases hwritten : (writeArtifacts (exportDirs dataDir c.key).files artifacts).run world
      (s', { opened with held := inode :: opened.held }) with ⟨e | u, s'', after⟩ <;>
      rw [exportConfig_run_locked h ⟨hcollect, hmade, hopen⟩ hfree hwritten]
    · exact .failed ⟨hcollect, hmade, hopen⟩ hfree hwritten
    · exact .written ⟨hcollect, hmade, hopen⟩ hfree hwritten

/-- A file is read or opened to be written only while the lock is held. -/
theorem mem_history_exportConfig (h : Refusing store world) {e : Event (τ × FileSystem)}
    (haccess : e.request.Accesses) (he : e ∈ (exportConfig dataDir c).history world (s, fs)) :
    ∃ artifacts s' made opened inode,
      Preparing world dataDir c s fs artifacts s' made opened inode ∧ inode ∉ opened.held ∧
        e ∈ (writeArtifacts (exportDirs dataDir c.key).files artifacts).history world
          (s', { opened with held := inode :: opened.held }) := by
  rcases mem_history_bind.1 he with hread | ⟨artifacts, ⟨s', fs'⟩, hcollect, hlater⟩
  · obtain ⟨key, hkey⟩ := (collect_reads c).history _ e hread
    rw [hkey] at haccess
    exact haccess.elim
  obtain rfl := (collect_tree h hcollect).symm
  rcases mem_history_bind.1 hlater with hmake | ⟨u, ⟨s1, made⟩, hmake, hlast⟩
  · obtain rfl := List.mem_singleton.1 hmake
    exact haccess.elim
  obtain ⟨rfl, hmade⟩ := h.answer_of_file id hmake
  rcases mem_history_bind.1 hlast with hlocked | ⟨written, t, -, hend⟩
  · obtain ⟨inode, t, htaken, hwriting⟩ := mem_history_withWriteLock haccess hlocked
    rcases tryWriteLock_run h (exportDirs dataDir c.key).lock s1 made with
      ⟨e, hlock⟩ | ⟨inode', opened, hopen, ⟨-, hlock⟩ | ⟨hfree, hlock⟩⟩ <;>
      cases hlock.symm.trans htaken
    exact ⟨artifacts, s1, made, opened, inode, ⟨hcollect, hmade, hopen⟩, hfree, hwriting⟩
  · have hquiet : (lockedOutcome c.key written).Only fun q => ¬q.Accesses :=
      lockedOutcome_only (fun _ => id) _ _
    exact absurd haccess (hquiet.history _ e hend)

end Ends

end Relocation
