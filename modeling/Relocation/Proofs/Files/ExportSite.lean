import Relocation.Files.Calls
import Relocation.Proofs.Files.Stations

/-!
The site of an export on its way from what stood there to what the export calls for
(`exportedLook`). Every operation of an export takes each place of the tree a step forward or leaves
it as it is, and none fails (`makeDirs_underway`, `openLock_raised`, `read_raised`, `write_raised`),
however far the export came before.
-/

set_option autoImplicit false

namespace Relocation

namespace Files

/-- What can be seen of an entry: all but the number of a file. -/
inductive Look
  | file (mode : Nat) (content : String)
  | directory (mode : Nat)
  | link (target : String)
  deriving DecidableEq, Repr

def Entry.look : Entry → Look
  | .file _ mode content => .file mode content
  | .directory mode => .directory mode
  | .link target => .link target

namespace FileSystem

variable {fs fs' fs'' : FileSystem} {l : Location}

def look (fs : FileSystem) (l : Location) : Option Look := (fs.entries.get? l).map Entry.look

theorem look_eq_none : fs.look l = none ↔ fs.entries.get? l = none := by simp [look]

theorem look_eq_directory {mode : Nat} :
    fs.look l = some (.directory mode) ↔ fs.entries.get? l = some (.directory mode) := by
  unfold look
  cases fs.entries.get? l with
  | none => simp
  | some entry => cases entry <;> simp [Entry.look]

theorem look_eq_file {mode : Nat} {content : String} : fs.look l = some (.file mode content) ↔
    ∃ inode, fs.entries.get? l = some (.file inode mode content) := by
  unfold look
  cases fs.entries.get? l with
  | none => simp
  | some entry => cases entry <;> simp [Entry.look]

theorem look_of_entries (h : fs'.entries.get? l = fs.entries.get? l) : fs'.look l = fs.look l := by
  rw [look, h, look]

theorem look_place_self (entry : Entry) : (fs.place l entry).look l = some entry.look := by
  simp [look, place]

theorem look_place_of_ne {l' : Location} (h : l' ≠ l) (entry : Entry) :
    (fs.place l entry).look l' = fs.look l' :=
  look_of_entries (Table.get?_insert_of_ne _ _ h)

/-- At every place a tree looks as before or as it shall look in the end. -/
def Forward (goal : Location → Option Look) (fs fs' : FileSystem) : Prop :=
  ∀ l, fs'.look l = fs.look l ∨ fs'.look l = goal l

variable {goal : Location → Option Look}

theorem Forward.refl (fs : FileSystem) : Forward goal fs fs := fun _ => .inl rfl

theorem forward_of_entries (h : fs'.entries = fs.entries) : Forward goal fs fs' :=
  fun _ => .inl (look_of_entries (by rw [h]))

theorem Forward.trans (h : Forward goal fs fs') (h' : Forward goal fs' fs'') :
    Forward goal fs fs'' := by
  intro l
  rcases h' l with heq | heq
  · rw [heq]
    exact h l
  · exact .inr heq

theorem Forward.reached (h : Forward goal fs fs') (hl : fs.look l = goal l) :
    fs'.look l = goal l := by
  rcases h l with heq | heq
  · exact heq.trans hl
  · exact heq

theorem forward_place {entry : Entry} (h : goal l = some entry.look) :
    Forward goal fs (fs.place l entry) := by
  intro l'
  by_cases hl : l' = l
  · subst hl
    exact .inr ((look_place_self entry).trans h.symm)
  · exact .inl (look_place_of_ne hl entry)

end FileSystem

end Files

open Files FileSystem

section Places

variable (dataDir : Path) (k : ObjectKey)

/-- The directories of the export of a key and those that they stand in. -/
def exportStations : List Location := stations [] (dataDir.stem ++ (k.place ++ ["files"]))

/-- Where the lock file of the export of a key stands. -/
def lockPlace : Location := lexical [] dataDir.stem ++ (k.place ++ [lockFileName])

def artifactPlace (artifact : Artifact) : Location :=
  lexical [] dataDir.stem ++ (k.place ++ ["files", artifact.fileName])

/-- Whether the paths of an export can be asked for, and lead to directories and files at different
places. -/
structure ExportPaths : Prop where
  key : k.Placeable
  short : ∀ s ∈ dataDir.parts ++ [k.space, k.name], Text.byteCount s.toList ≤ maxName
  lockPath : checkPath ((exportDirs dataDir k).lock.join lockFileName) = .ok ()
  artifactPath : ∀ artifact : Artifact,
    checkPath ((exportDirs dataDir k).files.join artifact.fileName) = .ok ()
  apart : ∀ l ∈ exportStations dataDir k,
    l ≠ lockPlace dataDir k ∧ ∀ artifact, l ≠ artifactPlace dataDir k artifact

/-- Whether an export can be made in a tree: only directories stand where its directories belong,
and only files where its files belong. -/
structure ExportSite (fs : FileSystem) : Prop extends ExportPaths dataDir k where
  directories : ∀ l ∈ exportStations dataDir k, fs.entries.get? l = none ∨ fs.HasDir l
  files : ∀ l, (l = lockPlace dataDir k ∨ ∃ artifact, l = artifactPlace dataDir k artifact) →
    fs.entries.get? l = none ∨
      ∃ inode mode content, fs.entries.get? l = some (.file inode mode content)

/-- A file with a text, which keeps the mode of a file that stood there. -/
def rewritten (t : String) : Option Look → Look
  | some (.file mode _) => .file mode t
  | _ => .file artifactMode t

/-- How a tree shall look once artifacts with some texts are exported: missing directories and a
missing lock file are made, and every artifact holds its text. -/
def exportedLook (text : Artifact → Option String) (fs : FileSystem) (l : Location) :
    Option Look :=
  if l ∈ exportStations dataDir k then some ((fs.look l).getD (.directory privateDirMode))
  else if l = lockPlace dataDir k then some ((fs.look l).getD (.file lockFileMode ""))
  else
    match (Artifact.all.find? fun artifact => artifactPlace dataDir k artifact = l).bind text with
    | some t => some (rewritten t (fs.look l))
    | none => fs.look l

/-- A tree in which an export may have been begun. -/
structure Underway (text : Artifact → Option String) (goal : Location → Option Look)
    (fs : FileSystem) : Prop where
  directories : ∀ l ∈ exportStations dataDir k,
    (fs.look l = none ∧ goal l = some (.directory privateDirMode)) ∨
      ∃ mode, fs.look l = some (.directory mode) ∧ goal l = some (.directory mode)
  lock : (fs.look (lockPlace dataDir k) = none ∧
      goal (lockPlace dataDir k) = some (.file lockFileMode "")) ∨
    ∃ mode content, fs.look (lockPlace dataDir k) = some (.file mode content) ∧
      goal (lockPlace dataDir k) = some (.file mode content)
  artifacts : ∀ artifact t, text artifact = some t →
    (fs.look (artifactPlace dataDir k artifact) = none ∧
        goal (artifactPlace dataDir k artifact) = some (.file artifactMode t)) ∨
      ∃ mode content, fs.look (artifactPlace dataDir k artifact) = some (.file mode content) ∧
        goal (artifactPlace dataDir k artifact) = some (.file mode t)

end Places

section Geometry

variable {dataDir : Path} {k : ObjectKey}

theorem lexical_names {names : List String} (h : ∀ s ∈ names, PathName s)
    (here : Location) : lexical here names = here ++ names := by
  induction names generalizing here with
  | nil => simp [lexical]
  | cons s rest ih =>
    have hs : PathName s := h s List.mem_cons_self
    rw [lexical_name hs.not_idle hs.ne_dotdot,
      ih fun t ht => h t (List.mem_cons_of_mem s ht), List.append_assoc, List.singleton_append]

theorem lockPlace_eq (dataDir : Path) (hk : k.Placeable) :
    lockPlace dataDir k = lexical [] (dataDir.stem ++ k.place) ++ [lockFileName] := by
  rw [lexical_append, lexical_names (pathNames_of_placeable hk), lockPlace, List.append_assoc]

theorem artifactPlace_eq (dataDir : Path) (hk : k.Placeable) (artifact : Artifact) :
    artifactPlace dataDir k artifact =
      lexical [] (dataDir.stem ++ (k.place ++ ["files"])) ++ [artifact.fileName] := by
  rw [lexical_append, lexical_names (pathNames_place hk pathNames_files), artifactPlace]
  simp

theorem lockPlace_ne_artifactPlace (artifact : Artifact) :
    lockPlace dataDir k ≠ artifactPlace dataDir k artifact := by
  intro heq
  have hlength := congrArg List.length heq
  simp [lockPlace, artifactPlace] at hlength

theorem artifactPlace_inj {a b : Artifact} :
    artifactPlace dataDir k a = artifactPlace dataDir k b ↔ a = b := by
  refine ⟨fun heq => ?_, fun heq => by rw [heq]⟩
  have hname : a.fileName = b.fileName := by simpa [artifactPlace] using heq
  revert hname
  cases a <;> cases b <;> decide

private theorem find_artifactPlace (artifact : Artifact) :
    (Artifact.all.find? fun a => artifactPlace dataDir k a = artifactPlace dataDir k artifact) =
      some artifact := by
  simp only [artifactPlace_inj]
  cases artifact <;> rfl

theorem filesDir_parts (dataDir : Path) (hk : k.Placeable) : (exportDirs dataDir k).files =
    ⟨dataDir.absolute, dataDir.stem ++ (k.place ++ ["files"])⟩ := by
  rw [filesDir_under, Path.under_eq _ (by simp) (pathNames_place hk pathNames_files)]

theorem lockPath_parts (dataDir : Path) (hk : k.Placeable) :
    ((exportDirs dataDir k).lock.join lockFileName).parts =
      (dataDir.stem ++ k.place) ++ [lockFileName] := by
  rw [lockPath_under, Path.under_eq _ (by simp) (pathNames_place hk pathNames_lock),
    List.append_assoc]

theorem artifactPath_parts (dataDir : Path) (hk : k.Placeable) (artifact : Artifact) :
    (exportDirs dataDir k).files.join artifact.fileName = ⟨dataDir.absolute,
      (dataDir.stem ++ (k.place ++ ["files"])) ++ [artifact.fileName]⟩ := by
  rw [artifactPath_under, Path.under_eq _ (by simp)
    (pathNames_place hk (pathNames_artifact artifact))]
  simp

theorem mem_stem {s : String} (h : s ∈ dataDir.stem) : s ∈ dataDir.parts := by
  rcases dataDir.stem_append with heq | heq <;> rw [heq] <;> simp [h]

/-- Below a data directory whose path never leads up, no directory of an export is in the place of
one of its files. -/
theorem exportStations_apart (hk : k.Placeable) (hup : ".." ∉ dataDir.parts) :
    ∀ l ∈ exportStations dataDir k,
      l ≠ lockPlace dataDir k ∧ ∀ artifact, l ≠ artifactPlace dataDir k artifact := by
  have hplace := pathNames_place hk pathNames_files
  have hups : ".." ∉ dataDir.stem ++ (k.place ++ ["files"]) := by
    rw [List.mem_append, not_or]
    exact ⟨fun h => hup (mem_stem h), fun h => (hplace _ h).ne_dotdot rfl⟩
  intro l hl
  have hinitial := stations_prefix hups hl
  rw [lexical_append, lexical_names hplace] at hinitial
  have hlength := hinitial.length_le
  refine ⟨?_, fun artifact => ?_⟩
  · rintro rfl
    have heq := hinitial.eq_of_length (by simp [lockPlace])
    simp [lockPlace, lockFileName] at heq
  · rintro rfl
    simp [artifactPlace] at hlength

theorem plain_lockFileName : Plain lockFileName := by decide

theorem plain_fileName (artifact : Artifact) : Plain artifact.fileName := by
  cases artifact <;> decide

variable (h : ExportPaths dataDir k)

include h

theorem ExportPaths.short_files :
    ∀ s ∈ dataDir.stem ++ (k.place ++ ["files"]), Text.byteCount s.toList ≤ maxName := by
  intro s hs
  have hwords : ∀ s ∈ ["namespaces", "files"], Text.byteCount s.toList ≤ maxName := by decide
  simp only [ObjectKey.place, List.mem_append, List.mem_cons, List.not_mem_nil, or_false] at hs
  rcases hs with hs | (rfl | rfl | rfl) | rfl
  · exact h.short s (List.mem_append_left _ (mem_stem hs))
  · exact hwords _ (by simp)
  · exact h.short _ (by simp)
  · exact h.short _ (by simp)
  · exact hwords _ (by simp)

theorem ExportPaths.filesPath : checkPath (exportDirs dataDir k).files = .ok () := by
  have hp := h.artifactPath .descriptor
  rw [artifactPath_parts _ h.key] at hp
  rw [filesDir_parts _ h.key]
  refine checkPath_prefix hp ?_
  rw [← List.append_assoc]
  exact text_ne_empty _ (by unfold Idle; decide)

end Geometry

section Goal

variable {dataDir : Path} {k : ObjectKey} {text : Artifact → Option String} {fs fs' : FileSystem}
  {goal : Location → Option Look}

theorem exportedLook_station {l : Location} (hl : l ∈ exportStations dataDir k) :
    exportedLook dataDir k text fs l =
      some ((fs.look l).getD (.directory privateDirMode)) := if_pos hl

theorem exportedLook_lock (h : ExportPaths dataDir k) :
    exportedLook dataDir k text fs (lockPlace dataDir k) =
      some ((fs.look (lockPlace dataDir k)).getD (.file lockFileMode "")) := by
  rw [exportedLook, if_neg fun hl => (h.apart _ hl).1 rfl, if_pos rfl]

theorem exportedLook_artifact (h : ExportPaths dataDir k) {artifact : Artifact} {t : String}
    (ht : text artifact = some t) :
    exportedLook dataDir k text fs (artifactPlace dataDir k artifact) =
      some (rewritten t (fs.look (artifactPlace dataDir k artifact))) := by
  rw [exportedLook, if_neg fun hl => (h.apart _ hl).2 artifact rfl,
    if_neg (lockPlace_ne_artifactPlace artifact).symm, find_artifactPlace, Option.bind_some, ht]

theorem exportedLook_elsewhere {l : Location} (hstation : l ∉ exportStations dataDir k)
    (hlock : l ≠ lockPlace dataDir k)
    (hartifact : ∀ artifact t, text artifact = some t → l ≠ artifactPlace dataDir k artifact) :
    exportedLook dataDir k text fs l = fs.look l := by
  rw [exportedLook, if_neg hstation, if_neg hlock]
  cases hfind : Artifact.all.find? fun artifact => artifactPlace dataDir k artifact = l with
  | none => rfl
  | some artifact =>
    have hl : artifactPlace dataDir k artifact = l := by simpa using List.find?_some hfind
    rw [Option.bind_some]
    cases ht : text artifact with
    | none => rfl
    | some t => exact absurd hl.symm (hartifact artifact t ht)

theorem ExportSite.underway (h : ExportSite dataDir k fs) (text : Artifact → Option String) :
    Underway dataDir k text (exportedLook dataDir k text fs) fs where
  directories l hl := by
    rw [exportedLook_station hl]
    rcases h.directories l hl with hnone | ⟨mode, hdir⟩
    · rw [look_eq_none.2 hnone]
      exact .inl ⟨rfl, rfl⟩
    · rw [look_eq_directory.2 hdir]
      exact .inr ⟨mode, rfl, rfl⟩
  lock := by
    rw [exportedLook_lock h.toExportPaths]
    rcases h.files _ (.inl rfl) with hnone | ⟨inode, mode, content, hfile⟩
    · rw [look_eq_none.2 hnone]
      exact .inl ⟨rfl, rfl⟩
    · rw [look_eq_file.2 ⟨inode, hfile⟩]
      exact .inr ⟨mode, content, rfl, rfl⟩
  artifacts artifact t ht := by
    rw [exportedLook_artifact h.toExportPaths ht]
    rcases h.files _ (.inr ⟨artifact, rfl⟩) with hnone | ⟨inode, mode, content, hfile⟩
    · rw [look_eq_none.2 hnone]
      exact .inl ⟨rfl, rfl⟩
    · rw [look_eq_file.2 ⟨inode, hfile⟩]
      exact .inr ⟨mode, content, rfl, rfl⟩

theorem Underway.forward (h : Underway dataDir k text goal fs) (hf : Forward goal fs fs') :
    Underway dataDir k text goal fs' where
  directories l hl := by
    rcases h.directories l hl with ⟨hlook, hgoal⟩ | ⟨mode, hlook, hgoal⟩
    · rcases hf l with heq | heq
      · exact .inl ⟨heq.trans hlook, hgoal⟩
      · exact .inr ⟨_, heq.trans hgoal, hgoal⟩
    · exact .inr ⟨mode, (hf.reached (hlook.trans hgoal.symm)).trans hgoal, hgoal⟩
  lock := by
    rcases h.lock with ⟨hlook, hgoal⟩ | ⟨mode, content, hlook, hgoal⟩
    · rcases hf (lockPlace dataDir k) with heq | heq
      · exact .inl ⟨heq.trans hlook, hgoal⟩
      · exact .inr ⟨_, _, heq.trans hgoal, hgoal⟩
    · exact .inr ⟨mode, content, (hf.reached (hlook.trans hgoal.symm)).trans hgoal, hgoal⟩
  artifacts artifact t ht := by
    rcases h.artifacts artifact t ht with ⟨hlook, hgoal⟩ | ⟨mode, content, hlook, hgoal⟩
    · rcases hf (artifactPlace dataDir k artifact) with heq | heq
      · exact .inl ⟨heq.trans hlook, hgoal⟩
      · exact .inr ⟨_, _, heq.trans hgoal, hgoal⟩
    · rcases hf (artifactPlace dataDir k artifact) with heq | heq
      · exact .inr ⟨mode, content, heq.trans hlook, hgoal⟩
      · exact .inr ⟨mode, t, heq.trans hgoal, hgoal⟩

end Goal

section Operations

variable {dataDir : Path} {k : ObjectKey} {text : Artifact → Option String} {fs fs' : FileSystem}
  {goal : Location → Option Look}

/-- Whether the directories of an export are made. -/
def Raised (dataDir : Path) (k : ObjectKey) (goal : Location → Option Look) (fs : FileSystem) :
    Prop := ∀ l ∈ exportStations dataDir k, fs.look l = goal l

/-- Nobody has the lock of an export: neither its lock file nor one that is still to be made is
locked. -/
structure Unlocked (dataDir : Path) (k : ObjectKey) (fs : FileSystem) : Prop where
  next : fs.nextInode ∉ fs.held
  file : ∀ inode mode content,
    fs.entries.get? (lockPlace dataDir k) = some (.file inode mode content) → inode ∉ fs.held

variable (hpaths : ExportPaths dataDir k) (h : Underway dataDir k text goal fs)

include hpaths h

private theorem buildable_files :
    fs.Buildable [] (dataDir.stem ++ (k.place ++ ["files"])) where
  short := hpaths.short_files
  clear l hl := by
    rcases h.directories l hl with ⟨hlook, -⟩ | ⟨mode, hlook, -⟩
    · exact .inl (look_eq_none.1 hlook)
    · exact .inr ⟨mode, look_eq_directory.1 hlook⟩

private theorem buildable_lock : fs.Buildable [] (dataDir.stem ++ k.place) := by
  have hb := buildable_files hpaths h
  rw [← List.append_assoc] at hb
  exact hb.append.1

omit hpaths in
private theorem built_files (hraised : Raised dataDir k goal fs) :
    fs.Built [] (dataDir.stem ++ (k.place ++ ["files"])) := by
  intro l hl
  have hlook := hraised l hl
  rcases h.directories l hl with ⟨-, hgoal⟩ | ⟨mode, -, hgoal⟩
  · exact ⟨_, look_eq_directory.1 (hlook.trans hgoal)⟩
  · exact ⟨_, look_eq_directory.1 (hlook.trans hgoal)⟩

omit hpaths in
private theorem built_lock (hraised : Raised dataDir k goal fs) :
    fs.Built [] (dataDir.stem ++ k.place) := by
  intro l hl
  refine built_files h hraised l ?_
  rw [← List.append_assoc, stations_append]
  exact List.mem_append_left _ hl

/-- The directories of an export can always be made. -/
theorem makeDirs_underway :
    ∃ fs', fs.answer (.makeDirs (exportDirs dataDir k).files) = (.ok (), fs') ∧
      Forward goal fs fs' ∧ Raised dataDir k goal fs' ∧
      (Unlocked dataDir k fs → Unlocked dataDir k fs') := by
  have hparts := filesDir_parts dataDir hpaths.key
  have hb := buildable_files hpaths h
  have hlast : ¬Idle "files" := by unfold Idle; decide
  have hnamed : (exportDirs dataDir k).files.parts = (dataDir.stem ++ k.place) ++ ["files"] := by
    rw [hparts, List.append_assoc]
  obtain ⟨fs', hmade, hraises⟩ := makeDirs_raises hnamed hlast hpaths.filesPath (by rwa [hparts])
  have hstations : stations [] (exportDirs dataDir k).files.parts = exportStations dataDir k := by
    rw [hparts, exportStations]
  rw [hstations] at hraises
  refine ⟨fs', hmade, fun l => ?_, fun l hl => ?_, fun hfree => ?_⟩
  · by_cases hl : l ∈ exportStations dataDir k
    · rcases h.directories l hl with ⟨hlook, hgoal⟩ | ⟨mode, hlook, -⟩
      · have hget := hraises.made l hl (look_eq_none.1 hlook)
        exact .inr ((look_eq_directory.2 hget).trans hgoal.symm)
      · have hget := hraises.kept l _ (look_eq_directory.1 hlook)
        exact .inl ((look_eq_directory.2 hget).trans hlook.symm)
    · exact .inl (look_of_entries (hraises.rest l hl))
  · rcases h.directories l hl with ⟨hlook, hgoal⟩ | ⟨mode, hlook, hgoal⟩
    · have hget := hraises.made l hl (look_eq_none.1 hlook)
      exact (look_eq_directory.2 hget).trans hgoal.symm
    · have hget := hraises.kept l _ (look_eq_directory.1 hlook)
      exact (look_eq_directory.2 hget).trans hgoal.symm
  · have hlock : lockPlace dataDir k ∉ exportStations dataDir k := fun hl =>
      (hpaths.apart _ hl).1 rfl
    refine ⟨by rw [hraises.nextInode, hraises.held]; exact hfree.next, ?_⟩
    rw [hraises.rest _ hlock, hraises.held]
    exact hfree.file

private theorem openLock_built (hbuilt : fs.Built [] (dataDir.stem ++ k.place)) :
    ∃ inode fs', fs.answer (.openLock ((exportDirs dataDir k).lock.join lockFileName)) =
        (.ok inode, fs') ∧ Forward goal fs fs' ∧
      fs'.look (lockPlace dataDir k) = goal (lockPlace dataDir k) ∧
      (Unlocked dataDir k fs → inode ∉ fs'.held) := by
  have hparts := lockPath_parts dataDir hpaths.key
  have hb := buildable_lock hpaths h
  have hplace := lockPlace_eq dataDir hpaths.key
  rcases h.lock with ⟨hlook, hgoal⟩ | ⟨mode, content, hlook, hgoal⟩
  · have hget := look_eq_none.1 hlook
    rw [hplace] at hget
    refine ⟨fs.nextInode, fs.placeFile (lockPlace dataDir k) lockFileMode "", ?_, ?_, ?_, ?_⟩
    · rw [answer, openFile,
        resolve_named_none hpaths.lockPath hparts plain_lockFileName hb hbuilt hget, ← hplace]
      rfl
    · exact forward_place hgoal
    · exact (look_place_self _).trans hgoal.symm
    · exact fun hfree => hfree.next
  · obtain ⟨inode, hget⟩ := look_eq_file.1 hlook
    refine ⟨inode, fs, ?_, .refl fs, hlook.trans hgoal.symm, fun hfree => hfree.file _ _ _ hget⟩
    rw [hplace] at hget
    rw [answer, openFile,
      resolve_named_file hpaths.lockPath hparts plain_lockFileName hb hbuilt hget]
    rfl

theorem openLock_forward : Forward goal fs
    (fs.answer (.openLock ((exportDirs dataDir k).lock.join lockFileName))).2 := by
  by_cases hbuilt : fs.Built [] (dataDir.stem ++ k.place)
  · obtain ⟨inode, fs', hopen, hforward, -⟩ := openLock_built hpaths h hbuilt
    rwa [hopen]
  · rw [answer, openFile, resolve_named_unbuilt hpaths.lockPath (lockPath_parts _ hpaths.key)
      plain_lockFileName (buildable_lock hpaths h) hbuilt]
    exact .refl fs

section Raised

variable (hraised : Raised dataDir k goal fs)

include hraised

theorem openLock_raised :
    ∃ inode fs', fs.answer (.openLock ((exportDirs dataDir k).lock.join lockFileName)) =
        (.ok inode, fs') ∧ Forward goal fs fs' ∧
      fs'.look (lockPlace dataDir k) = goal (lockPlace dataDir k) ∧
      (Unlocked dataDir k fs → inode ∉ fs'.held) :=
  openLock_built hpaths h (built_lock h hraised)

variable {artifact : Artifact} {t : String} (ht : text artifact = some t)

include ht

private theorem resolve_artifact :
    (fs.look (artifactPlace dataDir k artifact) = none ∧
        goal (artifactPlace dataDir k artifact) = some (.file artifactMode t) ∧
        fs.resolve true ((exportDirs dataDir k).files.join artifact.fileName) =
          .ok (.absent (artifactPlace dataDir k artifact) false)) ∨
      ∃ inode mode content,
        fs.look (artifactPlace dataDir k artifact) = some (.file mode content) ∧
        goal (artifactPlace dataDir k artifact) = some (.file mode t) ∧
        fs.resolve true ((exportDirs dataDir k).files.join artifact.fileName) =
          .ok (.file (artifactPlace dataDir k artifact) inode mode content) := by
  have hparts := congrArg Path.parts (artifactPath_parts dataDir hpaths.key artifact)
  have hp := hpaths.artifactPath artifact
  have hb := buildable_files hpaths h
  have hbuilt := built_files h hraised
  have hplace := artifactPlace_eq dataDir hpaths.key artifact
  rcases h.artifacts artifact t ht with ⟨hlook, hgoal⟩ | ⟨mode, content, hlook, hgoal⟩
  · have hget := look_eq_none.1 hlook
    refine .inl ⟨hlook, hgoal, ?_⟩
    rw [hplace] at hget ⊢
    exact resolve_named_none hp hparts (plain_fileName artifact) hb hbuilt hget
  · obtain ⟨inode, hget⟩ := look_eq_file.1 hlook
    refine .inr ⟨inode, mode, content, hlook, hgoal, ?_⟩
    rw [hplace] at hget ⊢
    exact resolve_named_file hp hparts (plain_fileName artifact) hb hbuilt hget

/-- An artifact can be read, or is not there yet. -/
theorem read_raised :
    (∃ old, fs.readFile ((exportDirs dataDir k).files.join artifact.fileName) = .ok old ∧
        (old = t ↔ fs.look (artifactPlace dataDir k artifact) =
          goal (artifactPlace dataDir k artifact))) ∨
      (fs.readFile ((exportDirs dataDir k).files.join artifact.fileName) = .error .notFound ∧
        fs.look (artifactPlace dataDir k artifact) ≠
          goal (artifactPlace dataDir k artifact)) := by
  rcases resolve_artifact hpaths h hraised ht with
    ⟨hlook, hgoal, hresolve⟩ | ⟨inode, mode, content, hlook, hgoal, hresolve⟩
  · refine .inr ⟨?_, ?_⟩
    · rw [readFile, hresolve]
      rfl
    · rw [hlook, hgoal]
      exact nofun
  · refine .inl ⟨content, ?_, ?_⟩
    · rw [readFile, hresolve]
      rfl
    · rw [hlook, hgoal]
      simp

/-- An artifact can be written. -/
theorem write_raised :
    ∃ fs', fs.answer (.write ((exportDirs dataDir k).files.join artifact.fileName) t) =
        (.ok (), fs') ∧ Forward goal fs fs' ∧
      fs'.look (artifactPlace dataDir k artifact) = goal (artifactPlace dataDir k artifact) := by
  rcases resolve_artifact hpaths h hraised ht with
    ⟨-, hgoal, hresolve⟩ | ⟨inode, mode, content, -, hgoal, hresolve⟩
  · refine ⟨fs.placeFile (artifactPlace dataDir k artifact) artifactMode t, ?_, ?_, ?_⟩
    · rw [answer, writeFile, hresolve]
      rfl
    · exact forward_place hgoal
    · exact (look_place_self _).trans hgoal.symm
  · refine ⟨fs.place (artifactPlace dataDir k artifact) (.file inode mode t), ?_, ?_, ?_⟩
    · rw [answer, writeFile, hresolve]
      rfl
    · exact forward_place hgoal
    · exact (look_place_self _).trans hgoal.symm

end Raised

end Operations

end Relocation
