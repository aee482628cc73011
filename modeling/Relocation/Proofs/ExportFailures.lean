import Relocation.Proofs.Exports
import Relocation.Store.Memory

/-!
What an export leaves that fails. A secret that cannot be had ends it before anything else is asked
for and before the tree is touched; a file that refuses ends it with the artifacts before written,
and all else as it was (`failed_export_leaves_prefix`).
-/

set_option autoImplicit false

namespace Relocation

open Files (FileSystem Entry Location)
open Program Store

def Event.storeCall? {σ : Type} : Event σ → Option StoreCall
  | ⟨_, .store call, _⟩ => some call
  | _ => none

/-- The calls to the store in a history, in their order. -/
def storeCalls {σ : Type} (history : List (Event σ)) : List StoreCall :=
  history.filterMap Event.storeCall?

section Secrets

variable {τ : Type} {store : StoreBehaviour τ} {world : World (τ × FileSystem)}
  {refs : List (Artifact × SecretReference)} {c : ClusterConfig} {dataDir : Path} {s : τ}
  {fs : FileSystem}

/-- The secret that a store gives for a reference; to have none is an error. -/
def secretReply (store : StoreBehaviour τ) (r : SecretReference) (s : τ) : Except Error Secret :=
  match (store (.getSecret r.key) s).1 with
  | .ok (some secret) => .ok secret
  | .ok none => .error (.notFound "Secret" r.key.text)
  | .error e => .error e

/-- The secrets that a store gives for references, asked for one after the other. -/
def secretReplies (store : StoreBehaviour τ) :
    List (Artifact × SecretReference) → τ → List (Except Error Secret)
  | [], _ => []
  | (_, r) :: rest, s =>
    secretReply store r s :: secretReplies store rest (store (.getSecret r.key) s).2

private theorem storeCalls_bind {α β : Type} (p : Program α) (f : α → Program β)
    (a : τ × FileSystem) :
    storeCalls ((p >>= f).history world a) = storeCalls (p.history world a) ++
      match p.run world a with
      | (.ok x, b) => storeCalls ((f x).history world b)
      | (.error _, _) => [] := by
  rw [history_bind, storeCalls, List.filterMap_append]
  rcases p.run world a with ⟨e | x, b⟩ <;> rfl

private theorem secretText_reply (h : Refusing store world) (r : SecretReference) (s : τ)
    (fs : FileSystem) :
    (secretText r).run world (s, fs) =
        ((secretReply store r s).map fun secret => secret.toValue.text,
          (store (.getSecret r.key) s).2, fs) ∧
      storeCalls ((secretText r).history world (s, fs)) = [.getSecret r.key] := by
  have hrun : (Program.store (.getSecret r.key)).run world (s, fs) =
      ((store (.getSecret r.key) s).1, (store (.getSecret r.key) s).2, fs) := by
    rw [run_store, h.other _ _ id]
    rfl
  rw [secretText, run_bind, history_bind, hrun, secretReply]
  rcases (store (.getSecret r.key) s).1 with e | _ | secret <;> exact ⟨rfl, rfl⟩

private theorem secretTexts_missing (h : Refusing store world)
    (hmissing : ∃ e, .error e ∈ secretReplies store refs s) (fs : FileSystem) :
    ∃ (found : List Secret) (e : Error) (rest : List (Except Error Secret)) (s' : τ),
      secretReplies store refs s = found.map .ok ++ .error e :: rest ∧
      (secretTexts refs).run world (s, fs) = (.error e, s', fs) ∧
      storeCalls ((secretTexts refs).history world (s, fs)) =
        (refs.take (found.length + 1)).map fun ref => .getSecret ref.2.key := by
  induction refs generalizing s with
  | nil => simp [secretReplies] at hmissing
  | cons ref refs ih =>
    obtain ⟨artifact, r⟩ := ref
    obtain ⟨hrun, hcalls⟩ := secretText_reply h r s fs
    obtain ⟨e, he⟩ := hmissing
    rw [secretReplies] at he
    rw [secretReplies, secretTexts]
    cases hreply : secretReply store r s with
    | error e' =>
      rw [hreply] at hrun
      refine ⟨[], e', _, _, rfl, by rw [run_bind, hrun]; rfl, ?_⟩
      rw [storeCalls_bind, hcalls, hrun]
      rfl
    | ok secret =>
      rw [hreply] at hrun he
      obtain ⟨found, e', rest, s', hreplies, hlater, hcalls'⟩ := ih ⟨e, by simpa using he⟩
      refine ⟨secret :: found, e', rest, s', by rw [hreplies]; rfl, ?_, ?_⟩
      · rw [run_bind_ok hrun, run_bind, hlater]
      · rw [storeCalls_bind, hcalls, hrun]
        simp only [Except.map]
        rw [storeCalls_bind, hcalls', hlater]
        simp

private theorem exportConfig_missing (h : Refusing store world)
    (hmissing : ∃ e, .error e ∈ secretReplies store c.spec.secretReferences s) :
    ∃ (found : List Secret) (e : Error) (rest : List (Except Error Secret)) (s' : τ),
      secretReplies store c.spec.secretReferences s = found.map .ok ++ .error e :: rest ∧
      (exportConfig dataDir c).run world (s, fs) = (.error e, s', fs) ∧
      storeCalls ((exportConfig dataDir c).history world (s, fs)) =
        (c.spec.secretReferences.take (found.length + 1)).map
          fun ref => .getSecret ref.2.key := by
  obtain ⟨found, e, rest, s', hreplies, hrun, hcalls⟩ := secretTexts_missing h hmissing fs
  obtain ⟨d, hd⟩ : ∃ d, Descriptor.ofConfig c .standard = .ok d := ⟨_, rfl⟩
  have hdescribed : (ofExcept (Descriptor.ofConfig c .standard)).run world (s, fs) =
      (.ok d, s, fs) := by rw [hd]; rfl
  have hcollect : (collect c).run world (s, fs) = (.error e, s', fs) := by
    rw [collect, run_bind_ok hdescribed, run_bind, hrun]
  refine ⟨found, e, rest, s', hreplies, by rw [exportConfig, run_bind, hcollect], ?_⟩
  have hquiet : storeCalls ((Program.ofExcept (Descriptor.ofConfig c .standard)).history world
      (s, fs)) = [] := rfl
  rw [exportConfig, storeCalls_bind, hcollect, collect, storeCalls_bind, hquiet, hdescribed]
  simp only [List.nil_append, List.append_nil]
  rw [storeCalls_bind, hcalls, hrun, List.append_nil]

end Secrets

/-- What an export leaves that a file stopped. The files of the artifacts before hold what was
collected, the files of the others are as they were and where there was none there is none; whatever
else stood in the tree stands there still, and nothing is new but directories, the lock file and the
files of the artifacts before; and the same files are locked. -/
structure PartlyExported (dirs : ExportDirs) (before others : List (Artifact × String))
    (fs fs' : FileSystem) : Prop where
  written : ∀ artifact text, (artifact, text) ∈ before →
    fs'.readFile (dirs.files.join artifact.fileName) = .ok text
  unwritten : ∀ artifact ∈ others.map Prod.fst, ∀ l,
    fs.FileAt (dirs.files.join artifact.fileName) l ∨
      fs'.FileAt (dirs.files.join artifact.fileName) l →
    fs'.entries.get? l = fs.entries.get? l
  kept : ∀ l entry, fs.entries.get? l = some entry →
    (∀ artifact ∈ before.map Prod.fst, ¬fs'.FileAt (dirs.files.join artifact.fileName) l) →
    fs'.entries.get? l = some entry
  added : ∀ l, fs.entries.get? l = none →
    fs'.entries.get? l = none ∨ fs'.entries.get? l = some (.directory Files.privateDirMode) ∨
      fs'.FileAt (dirs.lock.join lockFileName) l ∨
      ∃ artifact ∈ before.map Prod.fst, fs'.FileAt (dirs.files.join artifact.fileName) l
  held : fs'.held = fs.held

section Files

variable {τ : Type} {store : StoreBehaviour τ} {world : World (τ × FileSystem)} {c : ClusterConfig}
  {dataDir : Path} {s s' : τ} {fs fs' made opened after : FileSystem} {inode : Nat}
  {artifacts before others : List (Artifact × String)}

private theorem Preparing.kept (h : Preparing world dataDir c s fs artifacts s' made opened inode)
    {l : Location} {entry : Entry} (hget : fs.entries.get? l = some entry) :
    opened.entries.get? l = some entry := by
  have hmade : made.entries.get? l = some entry := h.made_extends.kept l entry hget
  rcases Files.FileSystem.openFile_eq_ok (Files.FileSystem.openLock_eq_ok h.lockFile) with
    ⟨rfl, -⟩ | ⟨l', hnone, -, rfl, -⟩
  · exact hmade
  · have hne : l ≠ l' := by
      rintro rfl
      exact nomatch hnone.symm.trans hmade
    exact (Table.get?_insert_of_ne _ _ hne).trans hmade

private theorem Preparing.added (h : Preparing world dataDir c s fs artifacts s' made opened inode)
    {l : Location} (hget : fs.entries.get? l = none) :
    opened.entries.get? l = none ∨
      opened.entries.get? l = some (.directory Files.privateDirMode) ∨
      opened.FileAt ((exportDirs dataDir c.key).lock.join lockFileName) l := by
  rcases Files.FileSystem.openFile_eq_ok (Files.FileSystem.openLock_eq_ok h.lockFile) with
    ⟨rfl, -⟩ | ⟨l', -, -, rfl, hresolve⟩
  · exact (h.made_extends.made l hget).imp_right .inl
  · by_cases hl : l = l'
    · subst hl
      exact .inr (.inr ⟨_, _, _, hresolve⟩)
    · have hsame : (made.placeFile l' Files.lockFileMode "").entries.get? l = made.entries.get? l :=
        Table.get?_insert_of_ne _ _ hl
      rw [hsame]
      exact (h.made_extends.made l hget).imp_right .inl

private theorem partlyExported_of_wrote (hl : fs.Linkless)
    (prepared : Preparing world dataDir c s fs (before ++ others) s' made opened inode)
    (hwrote : Wrote (exportDirs dataDir c.key).files before
      { opened with held := inode :: opened.held } after)
    (hheld : (after.release inode).held = fs.held) :
    PartlyExported (exportDirs dataDir c.key) before others fs (after.release inode) := by
  have hsame : (after.release inode).entries = after.entries := rfl
  have hlinkless : (after.release inode).Linkless :=
    Files.FileSystem.linkless_of_entries hwrote.linkless hsame
  have hbeside (l : Location) (hno : ∀ artifact ∈ before.map Prod.fst,
      ¬(after.release inode).FileAt ((exportDirs dataDir c.key).files.join artifact.fileName) l) :
      (after.release inode).entries.get? l = opened.entries.get? l :=
    hwrote.beside l fun artifact hmem hat =>
      hno artifact hmem ((Files.FileSystem.fileAt_congr hsame).2 hat)
  have hapart {a b : Artifact} (ha : a ∈ others.map Prod.fst) (hb : b ∈ before.map Prod.fst) :
      a ≠ b := by
    have hdistinct := collect_distinct prepared.collected
    rw [List.map_append] at hdistinct
    rintro rfl
    exact (List.nodup_append.1 hdistinct).2.2 a hb a ha rfl
  refine ⟨fun artifact text hmem => ?_, fun artifact hmem l hat => ?_,
    fun l entry hget hno => (hbeside l hno).trans (prepared.kept hget), fun l hget => ?_, hheld⟩
  · exact (Files.FileSystem.readFile_congr hsame _).trans (hwrote.reads artifact text hmem)
  · have hno : ∀ other ∈ before.map Prod.fst,
        ¬(after.release inode).FileAt ((exportDirs dataDir c.key).files.join other.fileName) l := by
      intro other hother
      rcases hat with hat | hat
      · exact Artifact.not_fileAt_of_ne hl hlinkless (hapart hmem hother) hat
      · exact Artifact.not_fileAt_of_ne hlinkless hlinkless (hapart hmem hother) hat
    rw [hbeside l hno]
    cases hget : fs.entries.get? l with
    | some entry => exact prepared.kept hget
    | none =>
      -- There was nothing before, so what is there now is neither a directory nor the lock file.
      have hafter : (after.release inode).FileAt
          ((exportDirs dataDir c.key).files.join artifact.fileName) l := by
        refine hat.resolve_left fun hat => ?_
        obtain ⟨_, _, _, hfile⟩ := hat.entry
        exact nomatch hget.symm.trans hfile
      obtain ⟨_, _, _, hfile⟩ := hafter.entry
      rcases prepared.added hget with hnone | hdir | hlock
      · exact hnone
      · exact nomatch hfile.symm.trans ((hbeside l hno).trans hdir)
      · have hne : lockFileName ≠ artifact.fileName := by cases artifact <;> decide
        exact absurd hafter (not_fileAt_of_ne (prepared.opened_linkless hl) hlinkless
          (pathNames_lock _ (List.mem_singleton_self _)) artifact.pathName_fileName hne hlock)
  · by_cases hwritten : ∃ artifact ∈ before.map Prod.fst,
        (after.release inode).FileAt ((exportDirs dataDir c.key).files.join artifact.fileName) l
    · exact .inr (.inr (.inr hwritten))
    · rw [hbeside l fun artifact hmem hat => hwritten ⟨artifact, hmem, hat⟩]
      rcases prepared.added hget with hnone | hdir | hlock
      · exact .inl hnone
      · exact .inr (.inl hdir)
      · refine .inr (.inr (.inl ((Files.FileSystem.fileAt_congr hsame).2 ?_)))
        have hlocking : opened.Grows { opened with held := inode :: opened.held } :=
          Files.FileSystem.grows_of_entries rfl
        exact hlock.grows (hlocking.trans hwrote.builds.toGrows)

private theorem exportConfig_stopped (h : Refusing store world) (hl : fs.Linkless)
    {artifact : Artifact} {e : Files.IoError} {event : Event (τ × FileSystem)}
    (hevent : event ∈ (exportConfig dataDir c).history world (s, fs))
    (hfails : event.Fails ((exportDirs dataDir c.key).files.join artifact.fileName) e) :
    ∃ before text later s' fs',
      (collect c).run world (s, fs) = (.ok (before ++ (artifact, text) :: later), s', fs) ∧
      (exportConfig dataDir c).run world (s, fs) =
        (.error (.artifact artifact.title e), s', fs') ∧
      PartlyExported (exportDirs dataDir c.key) before ((artifact, text) :: later) fs fs' := by
  obtain ⟨artifacts, s', made, opened, inode, prepared, free, hwriting⟩ :=
    mem_history_exportConfig h hfails.accesses hevent
  have hlinkless : ({ opened with held := inode :: opened.held } : FileSystem).Linkless :=
    prepared.opened_linkless hl
  obtain ⟨before, rest, r, after, rfl, hrun, hwrote, -, hstops⟩ :=
    writeArtifacts_run h (exportDirs dataDir c.key).files
      (collect_distinct prepared.collected) hlinkless s'
  obtain ⟨stopped, text, later, rfl, hpath, rfl⟩ := hstops event hwriting _ e hfails
  obtain rfl : artifact = stopped := by
    have hlast := congrArg (fun p : Path => p.parts.getLast?) hpath
    simp only [Path.getLast?_join _ (Artifact.pathName_fileName _), Option.some.injEq] at hlast
    exact Artifact.fileName_inj hlast
  have hended := exportConfig_run_locked h prepared free hrun
  have hheld := (exportConfig_ending h dataDir c s fs).held h
  rw [hended] at hheld
  exact ⟨before, text, later, s', _, prepared.collected, hended,
    partlyExported_of_wrote hl prepared hwrote hheld⟩

end Files

private theorem secretReferences_sublist (spec : ClusterConfigSpec) :
    (spec.secretReferences.map Prod.fst).Sublist
      [.apiCert, .ingressCert, .pullSecret, .acmSecret] := by
  unfold ClusterConfigSpec.secretReferences
  cases spec.relocation.apiCertRef <;> cases spec.relocation.ingressCertRef <;>
    cases spec.relocation.pullSecretRef <;> cases spec.acmRegistration <;>
    simp [List.cons_sublist_cons, List.Sublist.cons]

/-- A failing export leaves exactly a prefix, whatever a store answers and whichever files of a tree
without links refuse to be read or to be opened. If a referenced secret cannot be had, the first
such reference, in the order of the certificates, the pull secret and the registration, ends the
export with its error; nothing is asked of the store after it, and the tree with its locks is as it
was. If the file of an artifact cannot be read or opened, the export ends with an error that names
the artifact; the files of the artifacts collected before it hold their new texts, its own and those
of the artifacts after it are unchanged, as is all else that stood in the tree, and no lock is
kept. -/
theorem failed_export_leaves_prefix {τ : Type} {store : StoreBehaviour τ}
    {world : World (τ × FileSystem)} (h : Refusing store world) (dataDir : Path) (c : ClusterConfig)
    (s : τ) {fs : FileSystem} (hl : fs.Linkless) :
    (c.spec.secretReferences.map Prod.fst).Sublist
        [.apiCert, .ingressCert, .pullSecret, .acmSecret] ∧
      ((∃ e, .error e ∈ secretReplies store c.spec.secretReferences s) →
        ∃ (found : List Secret) (e : Error) (rest : List (Except Error Secret)) (s' : τ),
          secretReplies store c.spec.secretReferences s = found.map .ok ++ .error e :: rest ∧
          (exportConfig dataDir c).run world (s, fs) = (.error e, s', fs) ∧
          storeCalls ((exportConfig dataDir c).history world (s, fs)) =
            (c.spec.secretReferences.take (found.length + 1)).map
              fun ref => .getSecret ref.2.key) ∧
      ∀ artifact e, (∃ event ∈ (exportConfig dataDir c).history world (s, fs),
          event.Fails ((exportDirs dataDir c.key).files.join artifact.fileName) e) →
        ∃ before text later s' fs',
          (collect c).run world (s, fs) = (.ok (before ++ (artifact, text) :: later), s', fs) ∧
          (exportConfig dataDir c).run world (s, fs) =
            (.error (.artifact artifact.title e), s', fs') ∧
          PartlyExported (exportDirs dataDir c.key) before ((artifact, text) :: later) fs fs' :=
  ⟨secretReferences_sublist c.spec, exportConfig_missing h,
    fun _ _ ⟨_, hevent, hfails⟩ => exportConfig_stopped h hl hevent hfails⟩

private def twoSecretsConfig : ClusterConfig where
  metadata := { name := some "site", space := some "edge" }
  spec := {
    relocation := {
      domain := "example.com"
      apiCertRef := some ⟨"certs", "edge"⟩
      pullSecretRef := some ⟨"pull", "edge"⟩ } }

private def certsMemory : Memory := { secrets := Table.empty.insert ⟨"edge", "certs"⟩ {} }

private def bothMemory : Memory :=
  { certsMemory with secrets := certsMemory.secrets.insert ⟨"edge", "pull"⟩ {} }

private def bareTree : FileSystem :=
  ({} : FileSystem).place ["data"] (.directory 0o755)

private def blockedTree : FileSystem :=
  ((((bareTree.place ["data", "namespaces"] (.directory 0o700)).place
    ["data", "namespaces", "edge"] (.directory 0o700)).place
    ["data", "namespaces", "edge", "site"] (.directory 0o700)).place
    ["data", "namespaces", "edge", "site", "files"] (.directory 0o700)).place
    ["data", "namespaces", "edge", "site", "files", "pull-secret-secret.json"] (.directory 0o755)

private def failedExport (m : Memory) (fs : FileSystem) :
    Except Error Outcome × Memory × FileSystem :=
  (exportConfig ⟨true, ["data"]⟩ twoSecretsConfig).run (besideFiles Memory.answer) (m, fs)

/-- A pull secret that is missing, and one whose file cannot be read. -/
theorem failed_export_leaves_prefix_pull_secret :
    (∃ e, (failedExport certsMemory bareTree).1 = .error e ∧
        (failedExport certsMemory bareTree).2.2 = bareTree) ∧
      (failedExport bothMemory blockedTree).1 = .error (.artifact "pull secret" .isDirectory) ∧
      ∃ before text later m,
        (collect twoSecretsConfig).run (besideFiles Memory.answer) (bothMemory, blockedTree) =
          (.ok (before ++ (.pullSecret, text) :: later), m, blockedTree) ∧
        PartlyExported (exportDirs ⟨true, ["data"]⟩ ⟨"edge", "site"⟩) before
          ((.pullSecret, text) :: later) blockedTree (failedExport bothMemory blockedTree).2.2 := by
  have hworld := refusing_besideFiles Memory.answer
  have hplace {fs : FileSystem} (hl : fs.Linkless) (l : Location) (mode : Nat) :
      (fs.place l (.directory mode)).Linkless :=
    Files.FileSystem.linkless_place hl (by simp) l
  have hempty : ({} : FileSystem).Linkless := fun _ _ => nofun
  have hbare : bareTree.Linkless := hplace hempty _ _
  have hblocked : blockedTree.Linkless :=
    hplace (hplace (hplace (hplace (hplace hbare _ _) _ _) _ _) _ _) _ _
  have hmissing : ∃ e, .error e ∈ secretReplies Memory.answer
      twoSecretsConfig.spec.secretReferences certsMemory :=
    ⟨_, List.mem_cons_of_mem _ List.mem_cons_self⟩
  have hstopped : ∃ event ∈ (exportConfig ⟨true, ["data"]⟩ twoSecretsConfig).history
      (besideFiles Memory.answer) (bothMemory, blockedTree),
        event.Fails ((exportDirs ⟨true, ["data"]⟩ twoSecretsConfig.key).files.join
          Artifact.pullSecret.fileName) .isDirectory :=
    ⟨_, List.mem_of_getElem? (i := 9) rfl, .read _ rfl⟩
  obtain ⟨-, hmissed, -⟩ :=
    failed_export_leaves_prefix hworld ⟨true, ["data"]⟩ twoSecretsConfig certsMemory hbare
  obtain ⟨found, e, rest, m, -, hfirst, -⟩ := hmissed hmissing
  obtain ⟨-, -, hstops⟩ :=
    failed_export_leaves_prefix hworld ⟨true, ["data"]⟩ twoSecretsConfig bothMemory hblocked
  obtain ⟨before, text, later, m', fs', hcollect, hsecond, hpartly⟩ :=
    hstops .pullSecret .isDirectory hstopped
  have htree : (failedExport bothMemory blockedTree).2.2 = fs' :=
    congrArg (fun r => r.2.2) hsecond
  exact ⟨⟨e, congrArg Prod.fst hfirst, congrArg (fun r => r.2.2) hfirst⟩,
    congrArg Prod.fst hsecond, before, text, later, m', hcollect, htree ▸ hpartly⟩

end Relocation
