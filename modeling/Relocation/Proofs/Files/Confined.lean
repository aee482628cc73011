import Relocation.Proofs.Files.Clearing
import Relocation.Proofs.Files.Places

/-!
What an export and a removal do to a tree without links. It stays in the export directory, but for
directories that were missing on the way to it (`confined_answer`), and what a removal plans is its
own (`owns_of_plan`).
-/

set_option autoImplicit false

namespace Relocation

open Files FileSystem

section Confined

variable (dataDir : Path) (k : ObjectKey)

/-- The places of the directories that the export directory of a key stands in. -/
def exportWays : List Location := stations [] (dataDir.stem ++ ["namespaces", k.space])

/-- The file operations of an export and of a removal. -/
inductive Owns : FileCall → Prop
  | makeDirs : Owns (.makeDirs (exportDirs dataDir k).files)
  | read (artifact : Artifact) : Owns (.read ((exportDirs dataDir k).files.join artifact.fileName))
  | write (artifact : Artifact) (content : String) :
      Owns (.write ((exportDirs dataDir k).files.join artifact.fileName) content)
  | clears {call : FileCall} : Clears dataDir k call → Owns call

/-- Nothing has changed outside the export directory of a key, except that directories were put
where none stood on the way to it. -/
structure Confined (fs fs' : FileSystem) : Prop where
  tree : fs'.IsTree
  beside : ∀ l, ¬exportPlace dataDir k <+: l → fs'.entries.get? l = fs.entries.get? l ∨
    l ∈ exportWays dataDir k ∧ fs.entries.get? l = none ∧
      fs'.entries.get? l = some (.directory privateDirMode)

end Confined

section Confined

variable {dataDir : Path} {k : ObjectKey} {fs fs' fs'' : FileSystem} {l : Location}

theorem Confined.refl (h : fs.IsTree) : Confined dataDir k fs fs := ⟨h, fun _ _ => .inl rfl⟩

theorem Confined.trans (h : Confined dataDir k fs fs') (h' : Confined dataDir k fs' fs'') :
    Confined dataDir k fs fs'' where
  tree := h'.tree
  beside l hl := by
    rcases h'.beside l hl with hsame | ⟨hway, hnone, hdir⟩
    · rw [hsame]
      exact h.beside l hl
    · rcases h.beside l hl with hsame' | ⟨-, -, hdir'⟩
      · exact .inr ⟨hway, hsame'.symm.trans hnone, hdir⟩
      · rw [hdir'] at hnone
        cases hnone

theorem Confined.kept (h : Confined dataDir k fs fs') (hl : ¬exportPlace dataDir k <+: l)
    {entry : Entry} (hold : fs.entries.get? l = some entry) :
    fs'.entries.get? l = some entry := by
  rcases h.beside l hl with hsame | ⟨-, hnone, -⟩
  · rw [hsame, hold]
  · simp [hold] at hnone

theorem Confined.made (h : Confined dataDir k fs fs') (hl : ¬exportPlace dataDir k <+: l)
    (hold : fs.entries.get? l = none ∨ fs.entries.get? l = some (.directory privateDirMode)) :
    fs'.entries.get? l = none ∨ fs'.entries.get? l = some (.directory privateDirMode) := by
  rcases h.beside l hl with hsame | ⟨-, -, hdir⟩
  · rwa [hsame]
  · exact .inr hdir

theorem confined_of_beside (ht : fs'.IsTree) (h : SameBeside (exportPlace dataDir k) fs fs') :
    Confined dataDir k fs fs' := ⟨ht, fun l hl => .inl (h l hl)⟩

private theorem confined_of_entries (h : fs.IsTree) (heq : fs'.entries = fs.entries) :
    Confined dataDir k fs fs' :=
  confined_of_beside (isTree_of_entries h heq) fun _ _ => by rw [heq]

theorem lexical_ways (hk : k.Placeable) :
    lexical [] (dataDir.stem ++ ["namespaces", k.space]) ++ [k.name] = exportPlace dataDir k := by
  have hname : ∀ s ∈ [k.name], PathName s := fun s hs => List.mem_singleton.1 hs ▸ hk.2
  rw [← exportPlace_eq _ hk, place_named, lexical_append _ _ [k.name], lexical_names hname]

theorem stations_place (hk : k.Placeable) : stations [] (dataDir.stem ++ k.place) =
    exportWays dataDir k ++ [exportPlace dataDir k] := by
  rw [place_named, stations_concat hk.2.not_idle hk.2.ne_dotdot, lexical_ways hk, exportWays]

theorem exportStations_eq (hk : k.Placeable) : exportStations dataDir k =
    exportWays dataDir k ++ [exportPlace dataDir k, exportPlace dataDir k ++ ["files"]] := by
  have hfiles : PathName "files" := pathNames_files _ (by simp)
  rw [exportStations, ← List.append_assoc, stations_concat hfiles.not_idle hfiles.ne_dotdot,
    stations_place hk, exportPlace_eq _ hk, List.append_assoc]
  rfl

theorem exportPlace_ne_nil : exportPlace dataDir k ≠ [] := by simp [exportPlace, ObjectKey.place]

/-- The places of the export directories of two keys do not lie in each other. -/
theorem exportPlace_beside {k' : ObjectKey} (hne : k ≠ k') :
    ¬exportPlace dataDir k <+: exportPlace dataDir k' := by
  intro hbelow
  have hsame := hbelow.eq_of_length (by simp [exportPlace, ObjectKey.place])
  have hplace : k.place = k'.place := List.append_cancel_left hsame
  obtain ⟨space, name⟩ := k
  obtain ⟨space', name'⟩ := k'
  simp only [ObjectKey.place, List.cons.injEq, true_and, and_true] at hplace
  exact hne (by rw [hplace.1, hplace.2])

theorem eq_of_lockPlace_below {k' : ObjectKey}
    (hbelow : exportPlace dataDir k <+: lockPlace dataDir k') : k = k' := by
  have hshorter : (exportPlace dataDir k).length ≤ (exportPlace dataDir k').length := by
    simp [exportPlace, ObjectKey.place]
  have hprefix : exportPlace dataDir k <+: exportPlace dataDir k' :=
    List.prefix_of_prefix_length_le hbelow lockPlace_below hshorter
  exact by_contra fun hne => exportPlace_beside hne hprefix

theorem lockDir_stands (h : fs.IsTree) (hk : k.Placeable) {followLast : Bool}
    (hfound : fs.resolve followLast (exportDirs dataDir k).lock = .ok (.directory l)) :
    l = exportPlace dataDir k := by
  have hends := endsAt_resolve h followLast (exportDirs dataDir k).lock
  rw [hfound] at hends
  generalize hr : Except.ok (Halt.directory l) = r at hends
  cases hends with
  | directory =>
    cases hr
    rw [lockDir_parts _ hk, exportPlace_eq _ hk]
  | file => cases hr
  | absent => cases hr
  | error e => cases hr

theorem lexical_lockPath (hk : k.Placeable) :
    lexical [] ((exportDirs dataDir k).lock.join lockFileName).parts = lockPlace dataDir k := by
  rw [lockPath_parts _ hk, lockPlace_eq _ hk, lexical_append, lexical_names pathNames_lock]

theorem lexical_artifactPath (hk : k.Placeable) {artifact : Artifact} :
    lexical [] ((exportDirs dataDir k).files.join artifact.fileName).parts =
      artifactPlace dataDir k artifact := by
  have hname : ∀ s ∈ [artifact.fileName], PathName s := fun s hs =>
    pathNames_artifact artifact s (List.mem_cons_of_mem _ hs)
  rw [artifactPath_parts _ hk, artifactPlace_eq _ hk, lexical_append, lexical_names hname]

theorem artifactPlace_below (artifact : Artifact) :
    exportPlace dataDir k <+: artifactPlace dataDir k artifact := by
  rw [artifactPlace, ← List.append_assoc]
  exact List.prefix_append _ _

private theorem confined_openFile {mode inode : Nat} {p : Path} (h : fs.IsTree)
    (hp : exportPlace dataDir k <+: lexical [] p.parts)
    (hopen : fs.openFile mode p = .ok (inode, fs')) : Confined dataDir k fs fs' := by
  refine confined_of_beside (isTree_openFile h hopen) ?_
  rcases openFile_place h hopen with ⟨rfl, -⟩ | ⟨-, -, -, rfl⟩
  · exact .refl _ _
  · exact sameBeside_place hp _

private theorem confined_writeFile {mode : Nat} {p : Path} {content : String} (h : fs.IsTree)
    (hp : exportPlace dataDir k <+: lexical [] p.parts)
    (hwrite : fs.writeFile mode p content = .ok fs') : Confined dataDir k fs fs' := by
  refine confined_of_beside (isTree_writeFile h hwrite) ?_
  rcases writeFile_place h hwrite with ⟨_, _, _, -, rfl⟩ | ⟨-, -, rfl⟩
  · exact sameBeside_place hp _
  · exact sameBeside_place hp _

private theorem confined_commit {r : Except IoError FileSystem} (h : fs.IsTree)
    (hr : ∀ fs', r = .ok fs' → Confined dataDir k fs fs') :
    Confined dataDir k fs (fs.commit r).2 := by
  cases r with
  | error e => exact .refl h
  | ok fs' => exact hr fs' rfl

theorem place_of_owns (hk : k.Placeable) {step : Removal} (hstep : Owns dataDir k (.remove step)) :
    exportPlace dataDir k <+: step.place := by
  rcases hstep with _ | _ | _ | hclears
  cases hclears with
  | @inside e hbelow hne =>
    obtain ⟨l, entry⟩ := e
    cases entry <;> exact hbelow
  | last =>
    have hparts : (exportDirs dataDir k).lock.parts = dataDir.stem ++ k.place := by
      rw [lockDir_parts _ hk]
    have hplace : (Removal.removeDirPath (exportDirs dataDir k).lock).place =
        exportPlace dataDir k := by
      rw [Removal.place, hparts, place_named, trimSlashes_concat hk.2.ne_empty, ← place_named,
        exportPlace_eq _ hk]
    exact hplace ▸ List.prefix_refl (exportPlace dataDir k)

private theorem confined_remove (h : fs.IsTree) (hk : k.Placeable) {step : Removal}
    (hstep : Owns dataDir k (.remove step)) :
    Confined dataDir k fs (fs.answer (.remove step)).2 := by
  refine confined_commit h fun fs' hremove => ?_
  obtain ⟨rfl, htree⟩ := remove_place h hremove
  exact confined_of_beside htree (sameBeside_erase (place_of_owns hk hstep))

private theorem confined_makeDirs (h : fs.IsTree) (hk : k.Placeable) :
    Confined dataDir k fs (fs.makeDirs privateDirMode (exportDirs dataDir k).files).2 := by
  have hraised := raised_makeDirs h privateDirMode (exportDirs dataDir k).files
  refine ⟨hraised.tree, fun l hl => (hraised.news l).imp_right fun ⟨hstation, hmade⟩ => ⟨?_, hmade⟩⟩
  have hstation : l ∈ exportStations dataDir k := by
    rwa [filesDir_parts _ hk] at hstation
  simp only [exportStations_eq hk, List.mem_append, List.mem_cons, List.not_mem_nil,
    or_false] at hstation
  rcases hstation with hway | rfl | rfl
  · exact hway
  · exact absurd (List.prefix_refl _) hl
  · exact absurd (List.prefix_append _ _) hl

/-- What an export or a removal does to the files stays in its directory and on the way to it. -/
theorem confined_answer (h : fs.IsTree) (hk : k.Placeable) {call : FileCall}
    (hcall : Owns dataDir k call) : Confined dataDir k fs (fs.answer call).2 := by
  cases hcall with
  | makeDirs => exact confined_makeDirs h hk
  | read artifact => exact .refl h
  | write artifact content =>
    refine confined_commit h fun fs' hwrite => confined_writeFile h ?_ hwrite
    rw [lexical_artifactPath hk]
    exact artifactPlace_below artifact
  | clears hclears =>
    cases hclears with
    | stat => exact .refl h
    | openLock =>
      rw [FileSystem.answer]
      split
      · rename_i hopen
        exact confined_openFile h (by rw [lexical_lockPath hk]; exact lockPlace_below) hopen
      · exact .refl h
    | tryLock inode =>
      refine confined_of_entries h ?_
      simp only [FileSystem.answer, tryLock]
      split <;> rfl
    | release inode => exact confined_of_entries h rfl
    | plan => exact .refl h
    | inside hbelow hne => exact confined_remove h hk (.clears (.inside hbelow hne))
    | last => exact confined_remove h hk (.clears .last)

/-- Whatever stands in the directory of an export, the planned steps of its removal are its own. -/
theorem owns_of_plan (h : fs.IsTree) (hk : k.Placeable) {steps : List Removal}
    (hplan : fs.planRemoval (exportDirs dataDir k).lock = .ok steps) :
    ∀ step ∈ steps, Owns dataDir k (.remove step) := by
  have hends := endsAt_resolve h false (exportDirs dataDir k).lock
  have hplace : lexical [] (exportDirs dataDir k).lock.parts = exportPlace dataDir k := by
    rw [lockDir_parts _ hk, exportPlace_eq _ hk]
  rw [planRemoval] at hplan
  generalize fs.resolve false (exportDirs dataDir k).lock = r at hplan hends
  cases hends with
  | directory =>
    rw [hplace] at hplan
    obtain rfl := Except.ok.inj hplan
    intro step hstep
    rcases List.mem_append.1 hstep with hinside | hlast
    · obtain ⟨e, he, rfl⟩ := List.mem_map.1 hinside
      obtain ⟨-, hbelow, hne⟩ := mem_below.1 he
      exact .clears (.inside hbelow hne)
    · obtain rfl := List.mem_singleton.1 hlast
      exact .clears .last
  | file => cases hplan
  | absent => cases hplan
  | error e => cases hplan

end Confined

end Relocation
