import Relocation.Proofs.Files.ExportSite

/-!
The sites of exports of different keys in one tree. They have directories in common, but no
directory of the one is in the place of a file of the other (`exportStations_beside`), so an export
leaves every other site a site (`ExportSite.beside`).
-/

set_option autoImplicit false

namespace Relocation

open Files FileSystem

variable {dataDir : Path} {k k' : ObjectKey} {fs fs' : FileSystem}
  {text : Artifact → Option String} {l : Location}

/-- No directory of one export is in the place of a file of another. -/
theorem exportStations_beside (hk : k.Placeable) (h' : ExportPaths dataDir k')
    (hl : l ∈ exportStations dataDir k) :
    l ≠ lockPlace dataDir k' ∧ ∀ artifact, l ≠ artifactPlace dataDir k' artifact := by
  have hplace := pathNames_place hk pathNames_files
  rw [exportStations, stations_append, List.mem_append] at hl
  rcases hl with hl | hl
  · -- Above and at the data directory all exports have the same directories.
    refine h'.apart l ?_
    rw [exportStations, stations_append, List.mem_append]
    exact .inl hl
  · have hinitial := stations_prefix (fun h => (hplace _ h).ne_dotdot rfl) hl
    rw [lexical_names hplace] at hinitial
    refine ⟨?_, fun artifact => ?_⟩
    · rintro rfl
      have heq := hinitial.eq_of_length (by simp [lockPlace, ObjectKey.place])
      simp [lockPlace, lockFileName, ObjectKey.place] at heq
    · rintro rfl
      have hlength := hinitial.length_le
      simp [artifactPlace, ObjectKey.place] at hlength

private theorem look_directory (h : ExportPaths dataDir k) (hk' : k'.Placeable)
    (hl : l ∈ exportStations dataDir k')
    (hlook : fs.look l = none ∨ ∃ mode, fs.look l = some (.directory mode)) :
    exportedLook dataDir k text fs l = none ∨
      ∃ mode, exportedLook dataDir k text fs l = some (.directory mode) := by
  by_cases hstation : l ∈ exportStations dataDir k
  · rw [exportedLook_station hstation]
    rcases hlook with hnone | ⟨mode, hdir⟩
    · exact .inr ⟨privateDirMode, by rw [hnone]; rfl⟩
    · exact .inr ⟨mode, by rw [hdir]; rfl⟩
  · obtain ⟨hlock, hartifact⟩ := exportStations_beside hk' h hl
    rwa [exportedLook_elsewhere hstation hlock fun artifact _ _ => hartifact artifact]

private theorem look_file (hstation : l ∉ exportStations dataDir k)
    (hlook : fs.look l = none ∨ ∃ mode content, fs.look l = some (.file mode content)) :
    exportedLook dataDir k text fs l = none ∨
      ∃ mode content, exportedLook dataDir k text fs l = some (.file mode content) := by
  rw [exportedLook, if_neg hstation]
  split
  · rcases hlook with hnone | ⟨mode, content, hfile⟩
    · exact .inr ⟨lockFileMode, "", by rw [hnone]; rfl⟩
    · exact .inr ⟨mode, content, by rw [hfile]; rfl⟩
  · split
    · rename_i t _
      rcases hlook with hnone | ⟨mode, content, hfile⟩
      · exact .inr ⟨artifactMode, t, by rw [hnone]; rfl⟩
      · exact .inr ⟨mode, t, by rw [hfile]; rfl⟩
    · exact hlook

/-- Wherever an export has come to, the site of another one is as good as before. -/
theorem ExportSite.beside (h : ExportSite dataDir k' fs) (hk : ExportPaths dataDir k)
    (hf : Forward (exportedLook dataDir k text fs) fs fs') : ExportSite dataDir k' fs' where
  toExportPaths := h.toExportPaths
  directories l hl := by
    have hbefore : fs.look l = none ∨ ∃ mode, fs.look l = some (.directory mode) := by
      simpa only [look_eq_none, look_eq_directory, HasDir] using h.directories l hl
    have hafter : fs'.look l = none ∨ ∃ mode, fs'.look l = some (.directory mode) := by
      rcases hf l with heq | heq <;> rw [heq]
      · exact hbefore
      · exact look_directory hk h.key hl hbefore
    simpa only [look_eq_none, look_eq_directory, HasDir] using hafter
  files l hl := by
    have hstation : l ∉ exportStations dataDir k := by
      intro hmem
      obtain ⟨hlock, hartifact⟩ := exportStations_beside hk.key h.toExportPaths hmem
      rcases hl with rfl | ⟨artifact, rfl⟩
      · exact hlock rfl
      · exact hartifact artifact rfl
    have hbefore : fs.look l = none ∨ ∃ mode content, fs.look l = some (.file mode content) := by
      rcases h.files l hl with hnone | ⟨inode, mode, content, hfile⟩
      · exact .inl (look_eq_none.2 hnone)
      · exact .inr ⟨mode, content, look_eq_file.2 ⟨inode, hfile⟩⟩
    have hafter : fs'.look l = none ∨ ∃ mode content, fs'.look l = some (.file mode content) := by
      rcases hf l with heq | heq <;> rw [heq]
      · exact hbefore
      · exact look_file hstation hbefore
    rcases hafter with hnone | ⟨mode, content, hfile⟩
    · exact .inl (look_eq_none.1 hnone)
    · obtain ⟨inode, hget⟩ := look_eq_file.1 hfile
      exact .inr ⟨inode, mode, content, hget⟩

end Relocation
