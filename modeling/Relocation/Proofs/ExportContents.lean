import Relocation.Proofs.Collected
import Relocation.Proofs.Files.Places

/-!
What an export leaves that came to its end, place by place. In a tree without links the files of
the artifacts that a config calls for hold their texts, the other artifacts are as they were, and
nothing else is new but directories on the way and the lock file; and exactly those files are
written that did not hold their texts before (`export_writes_exactly`).
-/

set_option autoImplicit false

namespace Relocation

open Files (FileSystem Entry Location lexical stations)
open Files.FileSystem (EndsAt endsAt_resolve)
open Program Store

namespace ExportDirs

def artifactAt (dirs : ExportDirs) (artifact : Artifact) : Location :=
  lexical [] (dirs.files.join artifact.fileName).parts

def lockAt (dirs : ExportDirs) : Location := lexical [] (dirs.lock.join lockFileName).parts

private theorem lexical_join (dir : Path) {name : String} (h : PathName name) :
    lexical [] (dir.join name).parts = lexical [] dir.stem ++ [name] := by
  have hnames : ∀ s ∈ [name], PathName s := fun s hs => List.mem_singleton.1 hs ▸ h
  rw [dir.join_name h, Files.lexical_append, lexical_names hnames]

theorem artifactAt_inj {dirs : ExportDirs} {a b : Artifact} :
    dirs.artifactAt a = dirs.artifactAt b ↔ a = b := by
  refine ⟨fun h => ?_, fun h => by rw [h]⟩
  rw [artifactAt, artifactAt, lexical_join _ a.pathName_fileName,
    lexical_join _ b.pathName_fileName, List.append_cancel_left_eq, List.cons.injEq] at h
  exact Artifact.fileName_inj h.1

theorem artifactAt_ne_lockAt {dirs : ExportDirs} (a : Artifact) :
    dirs.artifactAt a ≠ dirs.lockAt := by
  intro h
  rw [artifactAt, lockAt, lexical_join _ a.pathName_fileName,
    lexical_join _ (pathNames_lock _ (List.mem_singleton_self _))] at h
  have hlast := congrArg List.getLast? h
  rw [List.getLast?_concat, List.getLast?_concat] at hlast
  cases a <;> exact absurd hlast (by decide)

end ExportDirs

/-- Whether a file that holds a text stands at a place. -/
def Files.FileSystem.holds (fs : FileSystem) (l : Location) (text : String) : Bool :=
  match fs.entries.get? l with
  | some (.file _ _ old) => old = text
  | _ => false

def Event.write? {σ : Type} : Event σ → Option (Path × String)
  | ⟨_, .file (.write path text), _⟩ => some (path, text)
  | _ => none

def writesOf {σ : Type} (history : List (Event σ)) : List (Path × String) :=
  history.filterMap Event.write?

section Writing

variable {τ : Type} {store : StoreBehaviour τ} {s s' : τ} {fs fs' : FileSystem} {dir path : Path}
  {text : String} {artifacts : List (Artifact × String)}

theorem writesOf_append {σ : Type} (before after : List (Event σ)) :
    writesOf (before ++ after) = writesOf before ++ writesOf after := List.filterMap_append

theorem Program.Only.writesOf {σ α : Type} {world : World σ} {p : Program α}
    (hp : p.Only fun q => ¬q.Writes) (s : σ) : writesOf (p.history world s) = [] := by
  refine List.filterMap_eq_nil_iff.2 fun e he => ?_
  have hquiet := hp.history s e he
  obtain ⟨state, q, reply⟩ := e
  cases q with
  | file call =>
    cases call with
    | write path text => exact absurd trivial hquiet
    | _ => rfl
  | _ => rfl

section Parts

variable {σ α β : Type} {world : World σ} {p : Program α} {f : α → Program β} {a : α} {x y : σ}

private theorem writesOf_bind_after (hp : p.Only fun q => ¬q.Writes)
    (h : p.run world x = (.ok a, y)) :
    writesOf ((p >>= f).history world x) = writesOf ((f a).history world y) := by
  rw [history_bind, h, writesOf_append, hp.writesOf, List.nil_append]

private theorem writesOf_bind_before (hf : ∀ a, (f a).Only fun q => ¬q.Writes) :
    writesOf ((p >>= f).history world x) = writesOf (p.history world x) := by
  rw [history_bind, writesOf_append]
  rcases p.run world x with ⟨e | a, y⟩
  · exact List.append_nil _
  · rw [(hf a).writesOf, List.append_nil]

end Parts

theorem isTree_run {α : Type} (p : Program α) (s : τ) (ht : fs.IsTree) :
    (p.run (besideFiles store) (s, fs)).2.2.IsTree := by
  induction p generalizing s fs with
  | done r => exact ht
  | ask q next ih =>
    rw [run_ask]
    cases q with
    | store call => exact ih _ _ ht
    | file call => exact ih _ _ (Files.FileSystem.isTree_answer ht call)
    | note notice => exact ih _ _ ht

/-- What becomes of a file that is written unless it holds the text already. It is written if it did
not, and nothing stands anywhere else that did not stand there before. -/
structure Refreshed (path : Path) (text : String) (fs fs' : FileSystem)
    (writes : List (Path × String)) : Prop where
  tree : fs'.IsTree
  beside : ∀ l, l ≠ lexical [] path.parts → fs'.entries.get? l = fs.entries.get? l
  writes : writes = if fs.holds (lexical [] path.parts) text then [] else [(path, text)]

private theorem refreshed_write (ht : fs.IsTree)
    (hother : fs.holds (lexical [] path.parts) text = false)
    (h : (tryFile (.write path text)).run (besideFiles store) (s, fs) = (.ok (.ok ()), s', fs')) :
    s' = s ∧ Refreshed path text fs fs'
      (writesOf ((tryFile (.write path text)).history (besideFiles store) (s, fs))) := by
  rw [run_tryFile, besideFiles, Files.FileSystem.answer] at h
  cases hwrite : fs.writeFile Files.artifactMode path text with
  | error e =>
    rw [hwrite] at h
    cases h
  | ok after =>
    rw [hwrite] at h
    cases h
    refine ⟨rfl, Files.FileSystem.isTree_writeFile ht hwrite, fun l hl => ?_, by rw [hother]; rfl⟩
    rcases Files.FileSystem.writeFile_place ht hwrite with ⟨_, _, _, -, rfl⟩ | ⟨-, -, rfl⟩
    · exact Table.get?_insert_of_ne _ _ hl
    · exact Table.get?_insert_of_ne _ _ hl

private theorem holds_of_read (ht : fs.IsTree) {old : String} (h : fs.readFile path = .ok old)
    (text : String) : fs.holds (lexical [] path.parts) text = decide (old = text) := by
  have hends := endsAt_resolve ht true path
  rw [Files.FileSystem.readFile] at h
  generalize fs.resolve true path = r at h hends
  cases hends with
  | directory => cases h
  | file hfile =>
    cases h
    rw [Files.FileSystem.holds, hfile]
  | absent => cases h
  | error e => cases h

private theorem not_holds_of_missing (ht : fs.IsTree) {e : Files.IoError} {mode : Nat}
    (h : fs.readFile path = .error e) (hwrite : fs.writeFile mode path text = .ok fs') :
    fs.holds (lexical [] path.parts) text = false := by
  have hends := endsAt_resolve ht true path
  rw [Files.FileSystem.readFile] at h
  rw [Files.FileSystem.writeFile] at hwrite
  generalize fs.resolve true path = r at h hwrite hends
  cases hends with
  | directory => cases hwrite
  | file hfile => cases h
  | absent hnone => rw [Files.FileSystem.holds, hnone]
  | error e => cases hwrite

private theorem refreshed_writeIfChanged (ht : fs.IsTree)
    (h : (writeIfChanged path text).run (besideFiles store) (s, fs) = (.ok (.ok ()), s', fs')) :
    s' = s ∧ Refreshed path text fs fs'
      (writesOf ((writeIfChanged path text).history (besideFiles store) (s, fs))) := by
  have hrun : (tryFile (.read path)).run (besideFiles store) (s, fs) =
      (.ok (fs.readFile path), s, fs) := rfl
  have hquiet : writesOf ((tryFile (.read path)).history (besideFiles store) (s, fs)) = [] := rfl
  rw [writeIfChanged, run_bind_ok hrun] at h
  rw [writeIfChanged, history_bind, hrun, writesOf_append, hquiet, List.nil_append]
  cases hread : fs.readFile path with
  | ok old =>
    simp only [hread] at h ⊢
    by_cases hsame : old = text
    · rw [if_pos hsame] at h ⊢
      cases h
      refine ⟨rfl, ht, fun _ _ => rfl, ?_⟩
      rw [holds_of_read ht hread, if_pos (decide_eq_true hsame)]
      rfl
    · rw [if_neg hsame] at h ⊢
      exact refreshed_write ht ((holds_of_read ht hread text).trans (decide_eq_false hsame)) h
  | error e =>
    simp only [hread] at h ⊢
    cases hmissing : e.isNotFound with
    | true =>
      rw [hmissing, if_pos rfl] at h
      refine refreshed_write ht ?_ h
      rw [run_tryFile, besideFiles, Files.FileSystem.answer] at h
      cases hwrite : fs.writeFile Files.artifactMode path text with
      | ok after => exact not_holds_of_missing ht hread hwrite
      | error e' =>
        rw [hwrite] at h
        cases h
    | false =>
      rw [hmissing, if_neg Bool.false_ne_true] at h
      cases h

private theorem writesOf_writeArtifacts {dirs : ExportDirs}
    (hdistinct : (artifacts.map Prod.fst).Nodup) (ht : fs.IsTree)
    (h : (writeArtifacts dirs.files artifacts).run (besideFiles store) (s, fs) =
      (.ok (), s', fs')) :
    writesOf ((writeArtifacts dirs.files artifacts).history (besideFiles store) (s, fs)) =
      (artifacts.filter fun w => !fs.holds (dirs.artifactAt w.1) w.2).map
        fun w => (dirs.files.join w.1.fileName, w.2) := by
  induction artifacts generalizing s fs with
  | nil => rfl
  | cons first rest ih =>
    obtain ⟨artifact, text⟩ := first
    obtain ⟨hnot, hrest⟩ := List.nodup_cons.1 hdistinct
    obtain ⟨result, ⟨s1, fs1⟩, hfirst, hlater⟩ := run_bind_eq_ok h
    cases result with
    | error e => cases hlater
    | ok u =>
      obtain ⟨rfl, hrefreshed⟩ := refreshed_writeIfChanged ht hfirst
      -- What was written first stands elsewhere than the files that are looked at later.
      have hsame : ∀ w ∈ rest,
          fs1.holds (dirs.artifactAt w.1) w.2 = fs.holds (dirs.artifactAt w.1) w.2 := by
        intro w hw
        have hmem : w.1 ∈ rest.map Prod.fst := List.mem_map_of_mem hw
        have hne : w.1 ≠ artifact := fun heq => hnot (heq ▸ hmem)
        rw [FileSystem.holds, FileSystem.holds,
          hrefreshed.beside _ fun heq => hne (ExportDirs.artifactAt_inj.1 heq)]
      have hfilter : rest.filter (fun w => !fs1.holds (dirs.artifactAt w.1) w.2) =
          rest.filter fun w => !fs.holds (dirs.artifactAt w.1) w.2 :=
        List.filter_congr fun w hw => by rw [hsame w hw]
      rw [writeArtifacts, history_bind, hfirst, writesOf_append, hrefreshed.writes,
        ih hrest hrefreshed.tree hlater, hfilter, List.filter_cons]
      change (if fs.holds (dirs.artifactAt artifact) text then _ else _) ++ _ = _
      cases fs.holds (dirs.artifactAt artifact) text <;> rfl

end Writing

/-- A tree in which a config was exported, beside the tree before. The files of what the config
calls for hold it, and a file that was there keeps its number and its mode, as every directory does;
the file of an artifact that it does not call for is as it was; and what else is new is a directory
on the way to the files or the lock file. -/
structure ExportedExactly (dirs : ExportDirs) (m : Memory) (c : ClusterConfig)
    (fs fs' : FileSystem) : Prop where
  descriptor : ∃ d, Descriptor.ofConfig c .standard = .ok d ∧
    fs'.readFile (dirs.files.join Artifact.descriptor.fileName) = .ok d.toValue.text
  secrets : ∀ artifact r, c.spec.secretReference? artifact = some r →
    ∃ secret, m.secrets.get? r.key = some secret ∧
      fs'.readFile (dirs.files.join artifact.fileName) = .ok secret.toValue.text
  unset : ∀ artifact, artifact ≠ .descriptor → c.spec.secretReference? artifact = none →
    ∀ inode mode text, fs'.entries.get? (dirs.artifactAt artifact) = some (.file inode mode text) ↔
      fs.entries.get? (dirs.artifactAt artifact) = some (.file inode mode text)
  others : ∀ l, (∀ artifact ∈ (calledFor m c).map Prod.fst, l ≠ dirs.artifactAt artifact) →
    fs'.entries.get? l = fs.entries.get? l ∨ fs.entries.get? l = none ∧
      (l ∈ stations [] dirs.files.parts ∧
          fs'.entries.get? l = some (.directory Files.privateDirMode) ∨
        l = dirs.lockAt ∧ ∃ inode, fs'.entries.get? l = some (.file inode Files.lockFileMode ""))
  grows : fs.Grows fs'
  tree : fs'.IsTree
  held : fs'.held = fs.held

section Exporting

variable {dataDir : Path} {c : ClusterConfig} {m m' : Memory} {fs made opened after : FileSystem}
  {inode : Nat} {artifacts : List (Artifact × String)} {t : Memory × FileSystem}

private theorem Preparing.news
    (h : Preparing (besideFiles Memory.answer) dataDir c m fs artifacts m' made opened inode)
    (ht : fs.IsTree) :
    opened.IsTree ∧ ∀ l, opened.entries.get? l = fs.entries.get? l ∨ fs.entries.get? l = none ∧
      (l ∈ stations [] (exportDirs dataDir c.key).files.parts ∧
          opened.entries.get? l = some (.directory Files.privateDirMode) ∨
        l = (exportDirs dataDir c.key).lockAt ∧
          ∃ inode, opened.entries.get? l = some (.file inode Files.lockFileMode "")) := by
  have hraised := Files.FileSystem.raised_makeDirs ht Files.privateDirMode
    (exportDirs dataDir c.key).files
  rw [h.directories] at hraised
  have htree := Files.FileSystem.isTree_answer hraised.tree
    (.openLock ((exportDirs dataDir c.key).lock.join lockFileName))
  rw [h.lockFile] at htree
  refine ⟨htree, fun l => ?_⟩
  have hmade : made.entries.get? l = fs.entries.get? l ∨ fs.entries.get? l = none ∧
      l ∈ stations [] (exportDirs dataDir c.key).files.parts ∧
        made.entries.get? l = some (.directory Files.privateDirMode) := by
    rcases hraised.news l with hsame | ⟨hstation, hnone, hdir⟩
    · exact .inl hsame
    · exact .inr ⟨hnone, hstation, hdir⟩
  have hopen := Files.FileSystem.openLock_eq_ok h.lockFile
  rcases Files.FileSystem.openFile_place hraised.tree hopen with ⟨rfl, -⟩ | ⟨hnone, -, -, rfl⟩
  · exact hmade.imp_right fun ⟨hold, hdir⟩ => ⟨hold, .inl hdir⟩
  · by_cases hl : l = (exportDirs dataDir c.key).lockAt
    · subst hl
      have hold : fs.entries.get? (exportDirs dataDir c.key).lockAt = none := by
        rcases hmade with hsame | ⟨hold, -⟩
        · exact hsame.symm.trans hnone
        · exact hold
      exact .inr ⟨hold, .inr ⟨rfl, made.nextInode, Table.get?_insert_self _ _ _⟩⟩
    · have hsame : (made.placeFile (exportDirs dataDir c.key).lockAt Files.lockFileMode
          "").entries.get? l = made.entries.get? l := Table.get?_insert_of_ne _ _ hl
      rw [← hsame] at hmade
      exact hmade.imp_right fun ⟨hold, hdir⟩ => ⟨hold, .inl hdir⟩

private theorem exportedExactly_of_wrote
    (prepared : Preparing (besideFiles Memory.answer) dataDir c m fs (calledFor m c) m made opened
      inode)
    (ht : fs.IsTree) (htree : after.IsTree)
    (hwrote : Wrote (exportDirs dataDir c.key).files (calledFor m c)
      { opened with held := inode :: opened.held } after)
    (hstored : ∀ artifact r, c.spec.secretReference? artifact = some r →
      (m.secrets.get? r.key).isSome)
    (hheld : (after.release inode).held = fs.held) :
    ExportedExactly (exportDirs dataDir c.key) m c fs (after.release inode) := by
  have hsame : (after.release inode).entries = after.entries := rfl
  have hreads {artifact : Artifact} {text : String}
      (htext : exportedText m c artifact = some text) :
      (after.release inode).readFile ((exportDirs dataDir c.key).files.join artifact.fileName) =
        .ok text :=
    (Files.FileSystem.readFile_congr hsame _).trans
      (hwrote.reads artifact text (mem_calledFor.2 htext))
  have hothers : ∀ l, (∀ artifact ∈ (calledFor m c).map Prod.fst,
      l ≠ (exportDirs dataDir c.key).artifactAt artifact) →
      (after.release inode).entries.get? l = opened.entries.get? l :=
    fun l hl => hwrote.beside l fun artifact hmem hat => hl artifact hmem (hat.place htree)
  obtain ⟨-, hnews⟩ := prepared.news ht
  refine ⟨?_, fun artifact r href => ?_, fun artifact hartifact href inode' mode text => ?_,
    fun l hl => ?_, ?_, Files.FileSystem.isTree_of_entries htree hsame, hheld⟩
  · obtain ⟨d, hd⟩ : ∃ d, Descriptor.ofConfig c .standard = .ok d := ⟨_, rfl⟩
    exact ⟨d, hd, hreads (exportedText_descriptor hd)⟩
  · obtain ⟨secret, hsecret⟩ := Option.isSome_iff_exists.1 (hstored artifact r href)
    exact ⟨secret, hsecret, hreads (exportedText_stored href hsecret)⟩
  · have hnot : artifact ∉ (calledFor m c).map Prod.fst := by
      intro hmem
      obtain ⟨called, hcalled, rfl⟩ := List.mem_map.1 hmem
      have htext := mem_calledFor.1 hcalled
      rw [exportedText_secret hartifact, href] at htext
      cases htext
    have hl : ∀ other ∈ (calledFor m c).map Prod.fst,
        (exportDirs dataDir c.key).artifactAt artifact ≠
          (exportDirs dataDir c.key).artifactAt other := by
      intro other hother heq
      exact hnot (ExportDirs.artifactAt_inj.1 heq ▸ hother)
    rw [hothers _ hl]
    rcases hnews ((exportDirs dataDir c.key).artifactAt artifact) with
      hkept | ⟨hnone, ⟨-, hdir⟩ | ⟨hlock, -⟩⟩
    · rw [hkept]
    · rw [hnone, hdir]
      exact ⟨nofun, nofun⟩
    · exact absurd hlock (ExportDirs.artifactAt_ne_lockAt artifact)
  · rw [hothers l hl]
    exact hnews l
  · have hlocking : opened.Grows { opened with held := inode :: opened.held } :=
      Files.FileSystem.grows_of_entries rfl
    have hreleased : after.Grows (after.release inode) := Files.FileSystem.grows_of_entries hsame
    exact (prepared.made_builds.toGrows.trans prepared.opened_builds.toGrows).trans
      ((hlocking.trans hwrote.builds.toGrows).trans hreleased)

private theorem writesOf_exportConfig
    (prepared : Preparing (besideFiles Memory.answer) dataDir c m fs artifacts m' made opened inode)
    (free : inode ∉ opened.held) :
    writesOf ((exportConfig dataDir c).history (besideFiles Memory.answer) (m, fs)) =
      writesOf ((writeArtifacts (exportDirs dataDir c.key).files artifacts).history
        (besideFiles Memory.answer) (m', { opened with held := inode :: opened.held })) := by
  have hworld := refusing_besideFiles Memory.answer
  have hcollecting : (collect c).Only fun q => ¬q.Writes :=
    (collect_reads c).mono fun q ⟨key, hq⟩ => hq ▸ id
  have htaking : (tryWriteLock (exportDirs dataDir c.key).lock).Only fun q => ¬q.Writes :=
    .bind (only_file id) fun _ => .bind (only_file id) fun _ => only_pure _
  have hmade : (Program.file (.makeDirs (exportDirs dataDir c.key).files)).run
      (besideFiles Memory.answer) (m', fs) = (.ok (), m', made) := by
    rw [hworld.run_file _ _ id, Files.FileSystem.answer, prepared.directories]
    rfl
  have hmaking : (Program.file (.makeDirs (exportDirs dataDir c.key).files)).Only
      fun q => ¬q.Writes := only_file id
  have hending (written : Option Unit) : (lockedOutcome c.key written).Only fun q => ¬q.Writes :=
    lockedOutcome_only (fun _ => id) _ _
  rw [exportConfig, writesOf_bind_after hcollecting prepared.collected]
  dsimp only
  rw [writesOf_bind_after hmaking hmade, writesOf_bind_before hending,
    history_withWriteLock_taken (tryWriteLock_run_free hworld prepared.lockFile free),
    writesOf_append, writesOf_append, htaking.writesOf, List.nil_append]
  exact List.append_nil _

/-- What the files of artifacts hold once the lock file is open they held before. -/
private theorem Preparing.holds
    (h : Preparing (besideFiles Memory.answer) dataDir c m fs artifacts m' made opened inode)
    (ht : fs.IsTree) (artifact : Artifact) (text : String) :
    opened.holds ((exportDirs dataDir c.key).artifactAt artifact) text =
      fs.holds ((exportDirs dataDir c.key).artifactAt artifact) text := by
  rw [FileSystem.holds, FileSystem.holds]
  rcases (h.news ht).2 ((exportDirs dataDir c.key).artifactAt artifact) with
    hkept | ⟨hnone, ⟨-, hdir⟩ | ⟨hlock, -⟩⟩
  · rw [hkept]
  · rw [hnone, hdir]
  · exact absurd hlock (ExportDirs.artifactAt_ne_lockAt artifact)

end Exporting

/-- An export that came to its end has written exactly what the config calls for. -/
theorem export_writes_exactly {dataDir : Path} {c : ClusterConfig} {m : Memory} {fs : FileSystem}
    {t : Memory × FileSystem} (ht : fs.IsTree)
    (h : (exportConfig dataDir c).run (besideFiles Memory.answer) (m, fs) = (.ok .settled, t)) :
    t.1 = m ∧ ExportedExactly (exportDirs dataDir c.key) m c fs t.2 ∧
      writesOf ((exportConfig dataDir c).history (besideFiles Memory.answer) (m, fs)) =
        ((calledFor m c).filter fun w =>
          !fs.holds ((exportDirs dataDir c.key).artifactAt w.1) w.2).map
            fun w => ((exportDirs dataDir c.key).files.join w.1.fileName, w.2) := by
  have hworld := refusing_besideFiles Memory.answer
  have hending := exportConfig_ending hworld dataDir c m fs
  have hheld := hending.held hworld
  rw [h] at hending hheld
  cases hending with
  | @written m1 m2 made opened after artifacts inode prepared free writing =>
    obtain ⟨hstore, rfl, hstored⟩ := collect_calledFor prepared.collected
    obtain rfl : m1 = m := congrArg Prod.fst hstore
    obtain ⟨hopened, -⟩ := prepared.news ht
    have hlocked : ({ opened with held := inode :: opened.held } : FileSystem).IsTree :=
      Files.FileSystem.isTree_of_entries hopened rfl
    have hafter : after.IsTree := by
      have htree : ((writeArtifacts (exportDirs dataDir c.key).files (calledFor m1 c)).run
          (besideFiles Memory.answer)
          (m1, { opened with held := inode :: opened.held })).2.2.IsTree := isTree_run _ m1 hlocked
      rwa [writing] at htree
    have hdistinct := collect_distinct prepared.collected
    obtain ⟨done, rest, r, fs3, hsplit, hrun, hwrote, hall, -⟩ := writeArtifacts_run hworld
      (exportDirs dataDir c.key).files hdistinct hlocked.linkless m1
    obtain ⟨rfl, hstate⟩ := Prod.mk.inj (hrun.symm.trans writing)
    obtain ⟨rfl, rfl⟩ := Prod.mk.inj hstate
    obtain rfl : calledFor m1 c = done := by simpa [hall rfl] using hsplit
    refine ⟨rfl, exportedExactly_of_wrote prepared ht hafter hwrote hstored hheld, ?_⟩
    rw [writesOf_exportConfig prepared free, writesOf_writeArtifacts hdistinct hlocked writing]
    refine congrArg _ (List.filter_congr fun w _ => congrArg _ ?_)
    exact prepared.holds ht w.1 w.2

private def oneSecretConfig : ClusterConfig where
  metadata := { name := some "site", space := some "edge" }
  spec := {
    relocation := {
      domain := "example.com"
      apiCertRef := some ⟨"certs", "edge"⟩
      ingressCertRef := some ⟨"certs", "edge"⟩ } }

private def oneSecretMemory : Memory := { secrets := Table.empty.insert ⟨"edge", "certs"⟩ {} }

private def siteDirs : ExportDirs := exportDirs ⟨true, ["data"]⟩ oneSecretConfig.key

private def staleTree : FileSystem :=
  let write (artifact : Artifact) (text : String) (fs : FileSystem) : FileSystem :=
    (fs.answer (.write (siteDirs.files.join artifact.fileName) text)).2
  write .pullSecret "left" (write .ingressCert ({} : Secret).toValue.text
    (write .apiCert "old" (({} : FileSystem).answer (.makeDirs siteDirs.files)).2))

private def freshExport : Except Error Outcome × Memory × FileSystem :=
  (exportConfig ⟨true, ["data"]⟩ oneSecretConfig).run (besideFiles Memory.answer)
    (oneSecretMemory, staleTree)

/-- The descriptor is missing, and of the two certificates only the one is written. -/
theorem export_writes_exactly_over_stale :
    freshExport.1 = .ok .settled ∧
      ExportedExactly siteDirs oneSecretMemory oneSecretConfig staleTree freshExport.2.2 ∧
      (writesOf ((exportConfig ⟨true, ["data"]⟩ oneSecretConfig).history
        (besideFiles Memory.answer) (oneSecretMemory, staleTree))).map Prod.fst =
          [siteDirs.files.join Artifact.descriptor.fileName,
            siteDirs.files.join Artifact.apiCert.fileName] := by
  have hwritten {fs : FileSystem} (h : fs.IsTree) (artifact : Artifact) (text : String) :
      (fs.answer (.write (siteDirs.files.join artifact.fileName) text)).2.IsTree :=
    Files.FileSystem.isTree_answer h _
  have hdirs : (({} : FileSystem).answer (.makeDirs siteDirs.files)).2.IsTree :=
    Files.FileSystem.isTree_answer Files.FileSystem.isTree_empty _
  have hstale : staleTree.IsTree := hwritten (hwritten (hwritten hdirs _ _) _ _) _ _
  have hsettled : freshExport.1 = .ok .settled := rfl
  have hrun : freshExport = (.ok .settled, freshExport.2) := Prod.ext hsettled rfl
  obtain ⟨-, hexported, hwrites⟩ := @export_writes_exactly ⟨true, ["data"]⟩ oneSecretConfig
    oneSecretMemory staleTree freshExport.2 hstale hrun
  refine ⟨hsettled, hexported, ?_⟩
  rw [hwrites]
  rfl

end Relocation
