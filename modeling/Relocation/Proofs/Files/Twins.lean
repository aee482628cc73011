import Relocation.Proofs.Files.Seeking

/-!
Trees that the work on the files of a key cannot tell apart. They agree on what stands at its export
directory and below it, but for the numbers of new files, and on whether a file is in the way to it.
Whatever an export or a removal does to both of them is answered alike and leaves such trees
(`Twins.answer`, `Twins.openLock`), in which the directories on the way are as they were or all
made.
-/

set_option autoImplicit false

namespace Relocation

open Files Files.FileSystem

section Twins

/-- Whether the names on the way to an export are short enough, and the way to the data directory
never leads up. -/
structure ShortPaths (dataDir : Path) (k : ObjectKey) : Prop where
  key : k.Placeable
  short : ∀ s ∈ dataDir.parts ++ [k.space, k.name], Text.byteCount s.toList ≤ maxName
  noUp : ".." ∉ dataDir.parts

/-- Two trees that a reconcile of a key has come to from two others, and that it cannot tell apart:
the same stands at the export directory and below it, and a file is in the way to it in both or in
none. The directories on the way are as they were, or all of them are there. -/
structure Twins (dataDir : Path) (k : ObjectKey) (start : FileSystem × FileSystem)
    (locks : List Nat × List Nat) (fs fs' : FileSystem) : Prop where
  tree : fs.IsTree
  tree' : fs'.IsTree
  same : ∀ l, exportPlace dataDir k <+: l →
    SameEntry start.1.nextInode (fs.entries.get? l) (fs'.entries.get? l)
  blocked : (∃ l ∈ exportWays dataDir k, fs.HasFile l) ↔ ∃ l ∈ exportWays dataDir k, fs'.HasFile l
  ways : (∀ l ∈ exportWays dataDir k, fs.entries.get? l = start.1.entries.get? l ∧
      fs'.entries.get? l = start.2.entries.get? l) ∨
    ∀ l ∈ exportWays dataDir k, fs.HasDir l ∧ fs'.HasDir l
  next : start.1.nextInode ≤ fs.nextInode
  next' : start.1.nextInode ≤ fs'.nextInode
  held : fs.held = locks.1
  held' : fs'.held = locks.2

variable {dataDir : Path} {k : ObjectKey} {start : FileSystem × FileSystem}
  {locks : List Nat × List Nat} {fs fs' gs gs' : FileSystem} {l : Location}

namespace ShortPaths

variable (hs : ShortPaths dataDir k)

include hs

private theorem plain_key : Plain k.space ∧ Plain k.name :=
  ⟨⟨hs.key.1.ne_empty, hs.key.1.ne_dot, hs.key.1.ne_dotdot, hs.short _ (by simp)⟩,
    ⟨hs.key.2.ne_empty, hs.key.2.ne_dot, hs.key.2.ne_dotdot, hs.short _ (by simp)⟩⟩

private theorem plain_place : ∀ s ∈ k.place, Plain s := by
  intro s hmem
  simp only [ObjectKey.place, List.mem_cons, List.not_mem_nil, or_false] at hmem
  rcases hmem with rfl | rfl | rfl
  · decide
  · exact hs.plain_key.1
  · exact hs.plain_key.2

private theorem along {p : Path} {names : List String} {last : String}
    (hp : p.parts = (dataDir.stem ++ names) ++ [last]) (hnames : ∀ s ∈ names, Plain s)
    (hlast : Plain last) : Along p (dataDir.stem ++ names) last where
  parts := hp
  last := hlast
  short s hmem := by
    rcases List.mem_append.1 hmem with hstem | hname
    · exact hs.short s (List.mem_append_left _ (mem_stem hstem))
    · exact (hnames s hname).short
  noUp hmem := by
    rcases List.mem_append.1 hmem with hstem | hname
    · exact hs.noUp (mem_stem hstem)
    · exact (hnames _ hname).ne_dotdot rfl

theorem way_beside (hl : l ∈ exportWays dataDir k) {k' : ObjectKey} :
    ¬exportPlace dataDir k' <+: l := by
  intro hbelow
  have hup : ".." ∉ dataDir.stem ++ ["namespaces", k.space] := by
    intro hmem
    rcases List.mem_append.1 hmem with hstem | hname
    · exact hs.noUp (mem_stem hstem)
    · exact hs.key.1.ne_dotdot (by simpa using hname : ".." = k.space).symm
  have habove := stations_prefix hup hl
  have hlength := Nat.le_trans hbelow.length_le habove.length_le
  have hways : (lexical [] (dataDir.stem ++ ["namespaces", k.space]) ++ [k.name]).length =
      (exportPlace dataDir k).length := congrArg List.length (lexical_ways hs.key)
  simp only [exportPlace, ObjectKey.place, List.length_append, List.length_cons] at hlength hways
  omega

private theorem files_parts :
    (exportDirs dataDir k).files.parts = (dataDir.stem ++ k.place) ++ ["files"] := by
  rw [filesDir_parts _ hs.key, List.append_assoc]

private theorem along_files :
    Along (exportDirs dataDir k).files (dataDir.stem ++ k.place) "files" :=
  hs.along hs.files_parts hs.plain_place (by decide)

private theorem named_files (fs : FileSystem) :
    endsInName (exportDirs dataDir k).files = true ∧
      fs.resolveName (exportDirs dataDir k).files = fs.resolve false (exportDirs dataDir k).files :=
  named_concat hs.files_parts hs.along_files.last.not_idle hs.along_files.last.ne_dotdot

private theorem makeDirs_unasked (ht : fs.IsTree) {e : IoError}
    (hp : checkPath (exportDirs dataDir k).files = .error e) :
    fs.makeDirs privateDirMode (exportDirs dataDir k).files = (.error e, fs) := by
  have he : e.isNotFound = false := by
    refine Bool.eq_false_iff.2 fun hgone => ?_
    obtain rfl : e = .notFound := by simpa [IoError.isNotFound] using hgone
    rw [filesDir_under] at hp
    exact checkPath_under (by simp) (pathNames_place hs.key pathNames_files) hp
  refine makeDirs_error (hs.named_files fs).1 (hs.named_files fs).2 he fun followLast => ?_
  rw [resolve_linkless ht.linkless, hp]
  rfl

private theorem makeDirs_blocked (ht : fs.IsTree)
    (hp : checkPath (exportDirs dataDir k).files = .ok ())
    (hb : fs.Blocked [] (dataDir.stem ++ k.place)) :
    fs.makeDirs privateDirMode (exportDirs dataDir k).files = (.error .notDirectory, fs) :=
  makeDirs_error (hs.named_files fs).1 (hs.named_files fs).2 rfl fun _ =>
    seek_blocked ht hs.along_files hp hb

private theorem makeDirs_taken (ht : fs.IsTree)
    (hp : checkPath (exportDirs dataDir k).files = .ok ())
    (hfile : fs.HasFile (lexical [] (dataDir.stem ++ k.place) ++ ["files"])) :
    fs.makeDirs privateDirMode (exportDirs dataDir k).files = (.error .alreadyExists, fs) := by
  obtain ⟨i, mode, content, hx⟩ := hfile
  exact makeDirs_file (hs.named_files fs).1 (hs.named_files fs).2 fun _ =>
    seek_file ht hs.along_files hp hx

private theorem buildable_files (ht : fs.IsTree) (hb : ¬fs.Blocked [] (dataDir.stem ++ k.place))
    (hfile : ¬fs.HasFile (lexical [] (dataDir.stem ++ k.place) ++ ["files"])) :
    fs.Buildable [] (exportDirs dataDir k).files.parts := by
  have hplain : Plain "files" := by decide
  rw [hs.files_parts]
  refine buildable_of_not_blocked ht (fun s hmem => ?_) ?_
  · rcases List.mem_append.1 hmem with hfront | hname
    · exact hs.along_files.short s hfront
    · exact List.mem_singleton.1 hname ▸ hplain.short
  · rintro ⟨l, hl, hfile'⟩
    rw [stations_concat hplain.not_idle hplain.ne_dotdot, List.mem_append,
      List.mem_singleton] at hl
    rcases hl with hl | rfl
    · exact hb ⟨l, hl, hfile'⟩
    · exact hfile hfile'

private theorem makeDirs_open (ht : fs.IsTree)
    (hp : checkPath (exportDirs dataDir k).files = .ok ())
    (hb : ¬fs.Blocked [] (dataDir.stem ++ k.place))
    (hfile : ¬fs.HasFile (lexical [] (dataDir.stem ++ k.place) ++ ["files"])) :
    ∃ gs, fs.makeDirs privateDirMode (exportDirs dataDir k).files = (.ok (), gs) ∧
      Raises privateDirMode (exportStations dataDir k) fs gs ∧
      ∀ l ∈ exportStations dataDir k, fs.entries.get? l = none ∨ fs.HasDir l := by
  have hstations : stations [] (exportDirs dataDir k).files.parts = exportStations dataDir k := by
    rw [filesDir_parts _ hs.key, exportStations]
  have hbuild := hs.buildable_files ht hb hfile
  have hraises : ∃ gs, fs.makeDirs privateDirMode (exportDirs dataDir k).files = (.ok (), gs) ∧
      Raises privateDirMode (stations [] (exportDirs dataDir k).files.parts) fs gs :=
    makeDirs_raises hs.files_parts hs.along_files.last.not_idle hp hbuild
  obtain ⟨gs, hgs, hmade⟩ := hraises
  exact ⟨gs, hgs, hstations ▸ hmade, hstations ▸ hbuild.clear⟩

end ShortPaths

namespace Twins

variable (h : Twins dataDir k start locks fs fs') (hs : ShortPaths dataDir k)

include h

private theorem blocked_iff {front : List String} {inside : List Location}
    (hstations : stations [] front = exportWays dataDir k ++ inside)
    (hinside : ∀ l ∈ inside, exportPlace dataDir k <+: l) :
    fs.Blocked [] front ↔ fs'.Blocked [] front := by
  simp only [Blocked, hstations, List.mem_append, or_and_right, exists_or]
  exact or_congr h.blocked
    (exists_congr fun l => and_congr_right fun hl => (h.same l (hinside l hl)).hasFile_iff)

private theorem built_iff {front : List String} (hup : ".." ∉ front)
    (hstation : lexical [] front ∈ stations [] front)
    (hinside : exportPlace dataDir k <+: lexical [] front) :
    fs.Built [] front ↔ fs'.Built [] front := by
  rw [built_iff_hasDir h.tree hup hstation, built_iff_hasDir h.tree' hup hstation]
  exact (h.same _ hinside).hasDir_iff

include hs

private theorem finds_lockDir (followLast : Bool) :
    Finds start.1.nextInode true (exportPlace dataDir k) fs fs'
      (fs.resolve followLast (exportDirs dataDir k).lock)
      (fs'.resolve followLast (exportDirs dataDir k).lock) := by
  have ha : Along (exportDirs dataDir k).lock (dataDir.stem ++ ["namespaces", k.space]) k.name :=
    hs.along (by rw [lockDir_parts _ hs.key, place_named])
      (fun s hmem => hs.plain_place s (List.mem_append_left [k.name] hmem)) hs.plain_key.2
  have hinside : exportPlace dataDir k <+:
      lexical [] (dataDir.stem ++ ["namespaces", k.space]) ++ [k.name] := by
    simp [lexical_ways hs.key]
  rw [← lexical_ways hs.key]
  exact finds_resolve h.tree h.tree' ha h.blocked (.inl rfl) (h.same _ hinside)

private theorem finds_lockFile :
    Finds start.1.nextInode false (lockPlace dataDir k) fs fs'
      (fs.resolve true ((exportDirs dataDir k).lock.join lockFileName))
      (fs'.resolve true ((exportDirs dataDir k).lock.join lockFileName)) := by
  have ha : Along ((exportDirs dataDir k).lock.join lockFileName) (dataDir.stem ++ k.place)
      lockFileName :=
    hs.along (lockPath_parts _ hs.key) hs.plain_place plain_lockFileName
  rw [lockPlace_eq _ hs.key]
  refine finds_resolve h.tree h.tree' ha ?_ (.inr ?_) (h.same _ ?_)
  · exact h.blocked_iff (stations_place hs.key) (by simp)
  · refine h.built_iff ha.noUp ?_ ?_ <;> simp [exportPlace_eq _ hs.key, stations_place hs.key]
  · rw [← lockPlace_eq _ hs.key]
    exact lockPlace_below

private theorem finds_artifact (artifact : Artifact) :
    Finds start.1.nextInode false (artifactPlace dataDir k artifact) fs fs'
      (fs.resolve true ((exportDirs dataDir k).files.join artifact.fileName))
      (fs'.resolve true ((exportDirs dataDir k).files.join artifact.fileName)) := by
  have hplain : ∀ s ∈ k.place ++ ["files"], Plain s := by
    intro s hmem
    rcases List.mem_append.1 hmem with hplace | hfiles
    · exact hs.plain_place s hplace
    · obtain rfl := List.mem_singleton.1 hfiles
      decide
  have ha : Along ((exportDirs dataDir k).files.join artifact.fileName)
      (dataDir.stem ++ (k.place ++ ["files"])) artifact.fileName :=
    hs.along (by rw [artifactPath_parts _ hs.key]) hplain (plain_fileName artifact)
  have hlexical : lexical [] (dataDir.stem ++ (k.place ++ ["files"])) =
      exportPlace dataDir k ++ ["files"] := by
    rw [← List.append_assoc, lexical_append, exportPlace_eq _ hs.key, lexical_names pathNames_files]
  have hstations : exportStations dataDir k = _ := exportStations_eq hs.key
  rw [artifactPlace_eq _ hs.key]
  refine finds_resolve h.tree h.tree' ha ?_ (.inr ?_) (h.same _ ?_)
  · exact h.blocked_iff hstations (by simp)
  · refine h.built_iff ha.noUp ?_ ?_
    · rw [hlexical, ← exportStations, hstations]
      simp
    · rw [hlexical]
      exact List.prefix_append _ _
  · rw [← artifactPlace_eq _ hs.key]
    exact artifactPlace_below artifact

private theorem after (hgs : gs.IsTree) (hgs' : gs'.IsTree)
    (hbeside : SameBeside (exportPlace dataDir k) fs gs)
    (hbeside' : SameBeside (exportPlace dataDir k) fs' gs')
    (hsame : ∀ l, exportPlace dataDir k <+: l →
      SameEntry start.1.nextInode (gs.entries.get? l) (gs'.entries.get? l))
    (hnext : fs.nextInode ≤ gs.nextInode ∧ fs'.nextInode ≤ gs'.nextInode)
    (hheld : gs.held = fs.held ∧ gs'.held = fs'.held) : Twins dataDir k start locks gs gs' where
  tree := hgs
  tree' := hgs'
  same := hsame
  blocked := by
    have hfile {a b : FileSystem} (hab : SameBeside (exportPlace dataDir k) a b) :
        (∃ l ∈ exportWays dataDir k, b.HasFile l) ↔ ∃ l ∈ exportWays dataDir k, a.HasFile l :=
      exists_congr fun l => and_congr_right fun hl => by
        rw [HasFile, HasFile, hab l (hs.way_beside hl)]
    rw [hfile hbeside, hfile hbeside']
    exact h.blocked
  ways := by
    refine h.ways.imp (fun hways l hl => ?_) fun hways l hl => ?_
    · rw [hbeside l (hs.way_beside hl), hbeside' l (hs.way_beside hl)]
      exact hways l hl
    · rw [HasDir, HasDir, hbeside l (hs.way_beside hl), hbeside' l (hs.way_beside hl)]
      exact hways l hl
  next := Nat.le_trans h.next hnext.1
  next' := Nat.le_trans h.next' hnext.2
  held := hheld.1.trans h.held
  held' := hheld.2.trans h.held'

private theorem insert {e e' : Entry} (hl : exportPlace dataDir k <+: l)
    (he : SameEntry start.1.nextInode (some e) (some e')) (hgs : gs.IsTree) (hgs' : gs'.IsTree)
    (hg : gs.entries = fs.entries.insert l e) (hg' : gs'.entries = fs'.entries.insert l e')
    (hnext : fs.nextInode ≤ gs.nextInode ∧ fs'.nextInode ≤ gs'.nextInode)
    (hheld : gs.held = fs.held ∧ gs'.held = fs'.held) : Twins dataDir k start locks gs gs' := by
  have hne {l' : Location} (hl' : ¬exportPlace dataDir k <+: l') : l' ≠ l :=
    fun heq => hl' (heq ▸ hl)
  refine h.after hs hgs hgs' (fun l' hl' => ?_) (fun l' hl' => ?_) (fun l' hl' => ?_) hnext hheld
  · rw [hg, Table.get?_insert_of_ne _ _ (hne hl')]
  · rw [hg', Table.get?_insert_of_ne _ _ (hne hl')]
  · rw [hg, hg']
    by_cases heq : l' = l
    · rwa [heq, Table.get?_insert_self, Table.get?_insert_self]
    · rw [Table.get?_insert_of_ne _ _ heq, Table.get?_insert_of_ne _ _ heq]
      exact h.same l' hl'

private theorem erase (hl : exportPlace dataDir k <+: l)
    (hgs : IsTree { fs with entries := fs.entries.erase l })
    (hgs' : IsTree { fs' with entries := fs'.entries.erase l }) :
    Twins dataDir k start locks { fs with entries := fs.entries.erase l }
      { fs' with entries := fs'.entries.erase l } := by
  refine h.after hs hgs hgs' (sameBeside_erase hl) (sameBeside_erase hl) (fun l' hl' => ?_)
    ⟨Nat.le_refl _, Nat.le_refl _⟩ ⟨rfl, rfl⟩
  by_cases heq : l' = l
  · simp only [heq, Table.get?_erase_self]
    exact .none
  · simp only [Table.get?_erase_of_ne _ heq]
    exact h.same l' hl'

/-- Both trees open the same lock file, or the same error keeps it from being opened. -/
theorem openLock :
    (∃ e, fs.answer (.openLock ((exportDirs dataDir k).lock.join lockFileName)) = (.error e, fs) ∧
      fs'.answer (.openLock ((exportDirs dataDir k).lock.join lockFileName)) = (.error e, fs')) ∨
    ∃ i i' gs gs',
      fs.answer (.openLock ((exportDirs dataDir k).lock.join lockFileName)) = (.ok i, gs) ∧
      fs'.answer (.openLock ((exportDirs dataDir k).lock.join lockFileName)) = (.ok i', gs') ∧
      SameInode start.1.nextInode i i' ∧ Twins dataDir k start locks gs gs' := by
  have hcall : Owns dataDir k (.openLock ((exportDirs dataDir k).lock.join lockFileName)) :=
    .clears .openLock
  have htree := (confined_answer h.tree hs.key hcall).tree
  have htree' := (confined_answer h.tree' hs.key hcall).tree
  have hfinds := h.finds_lockFile hs
  simp only [answer, openFile] at htree htree' ⊢
  generalize fs.resolve true ((exportDirs dataDir k).lock.join lockFileName) = r,
    fs'.resolve true ((exportDirs dataDir k).lock.join lockFileName) = r'
    at hfinds htree htree' ⊢
  cases hfinds with
  | error e => exact .inl ⟨e, rfl, rfl⟩
  | directory => exact .inl ⟨_, rfl, rfl⟩
  | missing hloose => cases hloose
  | file hx hx' hi => exact .inr ⟨_, _, fs, fs', rfl, rfl, hi, h⟩
  | absent =>
    refine .inr ⟨_, _, _, _, rfl, rfl, .inr ⟨h.next, h.next'⟩, ?_⟩
    exact h.insert hs lockPlace_below (.file _ _ (.inr ⟨h.next, h.next'⟩)) htree htree' rfl rfl
      ⟨Nat.le_succ _, Nat.le_succ _⟩ ⟨rfl, rfl⟩

private theorem write (artifact : Artifact) (content : String) :
    (fs.answer (.write ((exportDirs dataDir k).files.join artifact.fileName) content)).1 =
        (fs'.answer (.write ((exportDirs dataDir k).files.join artifact.fileName) content)).1 ∧
      Twins dataDir k start locks
        (fs.answer (.write ((exportDirs dataDir k).files.join artifact.fileName) content)).2
        (fs'.answer (.write ((exportDirs dataDir k).files.join artifact.fileName) content)).2 := by
  have hcall : Owns dataDir k
      (.write ((exportDirs dataDir k).files.join artifact.fileName) content) :=
    .write artifact content
  have htree := (confined_answer h.tree hs.key hcall).tree
  have htree' := (confined_answer h.tree' hs.key hcall).tree
  have hfinds := h.finds_artifact hs artifact
  simp only [answer, writeFile] at htree htree' ⊢
  generalize fs.resolve true ((exportDirs dataDir k).files.join artifact.fileName) = r,
    fs'.resolve true ((exportDirs dataDir k).files.join artifact.fileName) = r'
    at hfinds htree htree' ⊢
  cases hfinds with
  | error e => exact ⟨rfl, h⟩
  | directory => exact ⟨rfl, h⟩
  | missing hloose => cases hloose
  | file hx hx' hi =>
    exact ⟨rfl, h.insert hs (artifactPlace_below artifact) (.file _ _ hi) htree htree' rfl rfl
      ⟨Nat.le_refl _, Nat.le_refl _⟩ ⟨rfl, rfl⟩⟩
  | absent =>
    exact ⟨rfl, h.insert hs (artifactPlace_below artifact) (.file _ _ (.inr ⟨h.next, h.next'⟩))
      htree htree' rfl rfl ⟨Nat.le_succ _, Nat.le_succ _⟩ ⟨rfl, rfl⟩⟩

private theorem read (artifact : Artifact) :
    fs.readFile ((exportDirs dataDir k).files.join artifact.fileName) =
      fs'.readFile ((exportDirs dataDir k).files.join artifact.fileName) := by
  have hfinds := h.finds_artifact hs artifact
  simp only [readFile]
  generalize fs.resolve true ((exportDirs dataDir k).files.join artifact.fileName) = r,
    fs'.resolve true ((exportDirs dataDir k).files.join artifact.fileName) = r' at hfinds ⊢
  cases hfinds with
  | missing hloose => cases hloose
  | _ => rfl

private theorem stat :
    fs.stat (exportDirs dataDir k).lock = fs'.stat (exportDirs dataDir k).lock := by
  have hfinds := h.finds_lockDir hs true
  simp only [FileSystem.stat]
  generalize fs.resolve true (exportDirs dataDir k).lock = r,
    fs'.resolve true (exportDirs dataDir k).lock = r' at hfinds ⊢
  cases hfinds with
  | missing _ hr hr' =>
    rcases missing_cases hr with rfl | ⟨_, _, rfl⟩ <;>
      rcases missing_cases hr' with rfl | ⟨_, _, rfl⟩ <;> rfl
  | _ => rfl

private theorem plan :
    fs.planRemoval (exportDirs dataDir k).lock = fs'.planRemoval (exportDirs dataDir k).lock := by
  have hfinds := h.finds_lockDir hs false
  simp only [planRemoval]
  generalize fs.resolve false (exportDirs dataDir k).lock = r,
    fs'.resolve false (exportDirs dataDir k).lock = r' at hfinds ⊢
  cases hfinds with
  | missing _ hr hr' =>
    rcases missing_cases hr with rfl | ⟨_, _, rfl⟩ <;>
      rcases missing_cases hr' with rfl | ⟨_, _, rfl⟩ <;> rfl
  | directory => exact congrArg (fun steps => Except.ok (steps ++ _)) (removalOf_below h.same)
  | _ => rfl

private theorem removeDir (hl : exportPlace dataDir k <+: l) :
    (fs.commit (fs.removeDir l)).1 = (fs'.commit (fs'.removeDir l)).1 ∧
      Twins dataDir k start locks (fs.commit (fs.removeDir l)).2
        (fs'.commit (fs'.removeDir l)).2 := by
  have hbelow : fs.hasBelow l = fs'.hasBelow l :=
    hasBelow_iff fun l' hl' => h.same l' (hl.trans hl')
  have hentry := h.same l hl
  have hgs (fs : FileSystem) (htree : fs.IsTree) (hempty : fs.hasBelow l = false) :
      IsTree { fs with entries := fs.entries.erase l } :=
    isTree_erase htree fun name =>
      hasBelow_eq_false.1 hempty _ (List.prefix_append l [name]) (by simp)
  unfold FileSystem.removeDir
  rw [← hbelow]
  generalize fs.entries.get? l = o, fs'.entries.get? l = o' at hentry ⊢
  cases hentry with
  | none => exact ⟨rfl, h⟩
  | file => exact ⟨rfl, h⟩
  | directory mode =>
    dsimp only
    split
    · exact ⟨rfl, h⟩
    · rename_i hempty
      have hempty : fs.hasBelow l = false := by simpa using hempty
      exact ⟨rfl, h.erase hs hl (hgs fs h.tree hempty) (hgs fs' h.tree' (hbelow ▸ hempty))⟩

private theorem unlink (hl : exportPlace dataDir k <+: l) :
    (fs.commit (fs.unlink l)).1 = (fs'.commit (fs'.unlink l)).1 ∧
      Twins dataDir k start locks (fs.commit (fs.unlink l)).2 (fs'.commit (fs'.unlink l)).2 := by
  have hentry := h.same l hl
  have hne : l ≠ [] := fun hnil => exportPlace_ne_nil (List.prefix_nil.1 (hnil ▸ hl))
  generalize hx : fs.entries.get? l = o, hx' : fs'.entries.get? l = o' at hentry
  cases hentry with
  | none =>
    simp only [FileSystem.unlink, hx, hx']
    exact ⟨rfl, h⟩
  | directory mode =>
    simp only [FileSystem.unlink, hx, hx']
    exact ⟨rfl, h⟩
  | file mode content hi =>
    have hok {fs : FileSystem} {i : Nat}
        (hx : fs.entries.get? l = some (.file i mode content)) :
        fs.unlink l = .ok { fs with entries := fs.entries.erase l } := by
      rw [FileSystem.unlink, hx]
    rw [hok hx, hok hx']
    exact ⟨rfl, h.erase hs hl (isTree_unlink h.tree hne (hok hx))
      (isTree_unlink h.tree' hne (hok hx'))⟩

private theorem removeDirPath :
    (fs.answer (.remove (.removeDirPath (exportDirs dataDir k).lock))).1 =
        (fs'.answer (.remove (.removeDirPath (exportDirs dataDir k).lock))).1 ∧
      Twins dataDir k start locks
        (fs.answer (.remove (.removeDirPath (exportDirs dataDir k).lock))).2
        (fs'.answer (.remove (.removeDirPath (exportDirs dataDir k).lock))).2 := by
  have hfinds := h.finds_lockDir hs false
  have hparts : (exportDirs dataDir k).lock.parts =
      (dataDir.stem ++ ["namespaces", k.space]) ++ [k.name] := by
    rw [lockDir_parts _ hs.key, ← place_named]
  have hnamed (fs : FileSystem) : endsInName (exportDirs dataDir k).lock = true ∧
      fs.resolveName (exportDirs dataDir k).lock = fs.resolve false (exportDirs dataDir k).lock :=
    named_concat hparts hs.key.2.not_idle hs.key.2.ne_dotdot
  simp only [answer, remove, (hnamed fs).1, if_true, (hnamed fs).2, (hnamed fs').2]
  generalize fs.resolve false (exportDirs dataDir k).lock = r,
    fs'.resolve false (exportDirs dataDir k).lock = r' at hfinds ⊢
  cases hfinds with
  | error e => exact ⟨rfl, h⟩
  | absent => exact ⟨rfl, h⟩
  | file => exact ⟨rfl, h⟩
  | directory => exact h.removeDir hs (List.prefix_refl _)
  | missing _ hr hr' =>
    rcases missing_cases hr with rfl | ⟨_, _, rfl⟩ <;>
      rcases missing_cases hr' with rfl | ⟨_, _, rfl⟩ <;> exact ⟨rfl, h⟩

private theorem raised (hgs : gs.IsTree) (hgs' : gs'.IsTree)
    (hraises : Raises privateDirMode (exportStations dataDir k) fs gs)
    (hraises' : Raises privateDirMode (exportStations dataDir k) fs' gs')
    (hclear : ∀ l ∈ exportStations dataDir k, fs.entries.get? l = none ∨ fs.HasDir l)
    (hclear' : ∀ l ∈ exportStations dataDir k, fs'.entries.get? l = none ∨ fs'.HasDir l) :
    Twins dataDir k start locks gs gs' := by
  have hways (l : Location) (hl : l ∈ exportWays dataDir k) : gs.HasDir l ∧ gs'.HasDir l := by
    have hl : l ∈ exportStations dataDir k := by
      rw [exportStations_eq hs.key]
      exact List.mem_append_left _ hl
    exact ⟨hraises.hasDir hl (hclear l hl), hraises'.hasDir hl (hclear' l hl)⟩
  refine ⟨hgs, hgs', fun l hl => ?_, ?_, .inr hways, ?_, ?_, ?_, ?_⟩
  · have hsame := h.same l hl
    generalize hx : fs.entries.get? l = o, hx' : fs'.entries.get? l = o' at hsame
    cases hsame with
    | none =>
      by_cases hstation : l ∈ exportStations dataDir k
      · rw [hraises.made l hstation hx, hraises'.made l hstation hx']
        exact .directory _
      · rw [hraises.rest l hstation, hraises'.rest l hstation, hx, hx']
        exact .none
    | directory mode =>
      rw [hraises.kept l _ hx, hraises'.kept l _ hx']
      exact .directory mode
    | file mode content hi =>
      rw [hraises.kept l _ hx, hraises'.kept l _ hx']
      exact .file mode content hi
  · refine ⟨fun ⟨l, hl, hfile⟩ => ?_, fun ⟨l, hl, hfile⟩ => ?_⟩
    · exact absurd (hways l hl).1 hfile.not_hasDir
    · exact absurd (hways l hl).2 hfile.not_hasDir
  · exact hraises.nextInode ▸ h.next
  · exact hraises'.nextInode ▸ h.next'
  · exact hraises.held.trans h.held
  · exact hraises'.held.trans h.held'

private theorem makeDirs :
    (fs.answer (.makeDirs (exportDirs dataDir k).files)).1 =
        (fs'.answer (.makeDirs (exportDirs dataDir k).files)).1 ∧
      Twins dataDir k start locks (fs.answer (.makeDirs (exportDirs dataDir k).files)).2
        (fs'.answer (.makeDirs (exportDirs dataDir k).files)).2 := by
  have htree := (confined_answer h.tree hs.key (.makeDirs : Owns dataDir k _)).tree
  have htree' := (confined_answer h.tree' hs.key (.makeDirs : Owns dataDir k _)).tree
  simp only [FileSystem.answer] at htree htree' ⊢
  have hblocked := h.blocked_iff (stations_place hs.key) (by simp)
  have hlast := (h.same (lexical [] (dataDir.stem ++ k.place) ++ ["files"]) (by
    rw [exportPlace_eq _ hs.key]
    exact List.prefix_append _ _)).hasFile_iff
  cases hp : checkPath (exportDirs dataDir k).files with
  | error e =>
    rw [hs.makeDirs_unasked h.tree hp, hs.makeDirs_unasked h.tree' hp]
    exact ⟨rfl, h⟩
  | ok u =>
    by_cases hb : fs.Blocked [] (dataDir.stem ++ k.place)
    · rw [hs.makeDirs_blocked h.tree hp hb, hs.makeDirs_blocked h.tree' hp (hblocked.1 hb)]
      exact ⟨rfl, h⟩
    by_cases hfile : fs.HasFile (lexical [] (dataDir.stem ++ k.place) ++ ["files"])
    · rw [hs.makeDirs_taken h.tree hp hfile, hs.makeDirs_taken h.tree' hp (hlast.1 hfile)]
      exact ⟨rfl, h⟩
    obtain ⟨gs, hgs, hmade, hclear⟩ := hs.makeDirs_open h.tree hp hb hfile
    obtain ⟨gs', hgs', hmade', hclear'⟩ :=
      hs.makeDirs_open h.tree' hp (mt hblocked.2 hb) (mt hlast.2 hfile)
    rw [hgs] at htree ⊢
    rw [hgs'] at htree' ⊢
    exact ⟨rfl, h.raised hs htree htree' hmade hmade' hclear hclear'⟩

omit hs in
theorem relock (locks' : List Nat × List Nat) : Twins dataDir k start locks'
    { fs with held := locks'.1 } { fs' with held := locks'.2 } where
  tree := isTree_of_entries h.tree rfl
  tree' := isTree_of_entries h.tree' rfl
  same := h.same
  blocked := h.blocked
  ways := h.ways
  next := h.next
  next' := h.next'
  held := rfl
  held' := rfl

/-- Whatever an export or a removal does under its lock is answered alike. -/
theorem answer {call : FileCall} (hcall : Owns dataDir k call) (hopen : ∀ p, call ≠ .openLock p)
    (htry : ∀ inode, call ≠ .tryLock inode) (hrelease : ∀ inode, call ≠ .release inode) :
    (fs.answer call).1 = (fs'.answer call).1 ∧
      Twins dataDir k start locks (fs.answer call).2 (fs'.answer call).2 := by
  cases hcall with
  | makeDirs => exact h.makeDirs hs
  | read artifact => exact ⟨h.read hs artifact, h⟩
  | write artifact content => exact h.write hs artifact content
  | clears hclears =>
    cases hclears with
    | stat => exact ⟨h.stat hs, h⟩
    | openLock => exact absurd rfl (hopen _)
    | tryLock inode => exact absurd rfl (htry inode)
    | release inode => exact absurd rfl (hrelease inode)
    | plan => exact ⟨h.plan hs, h⟩
    | @inside e hbelow hne =>
      obtain ⟨l, entry⟩ := e
      cases entry with
      | directory mode => exact h.removeDir hs hbelow
      | file inode mode content => exact h.unlink hs hbelow
      | link target => exact h.unlink hs hbelow
    | last => exact h.removeDirPath hs

end Twins

end Twins

end Relocation
