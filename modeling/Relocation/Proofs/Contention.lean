import Relocation.Proofs.Exports
import Relocation.Proofs.Files.Making
import Relocation.Store.Memory

/-!
Exports that find the lock held. The directory of the files is made before the lock is tried, so an
export that gives way to another has changed nothing exactly when that directory was there
(`given_way_iff`); when it was not, as while another takes the export away, it stands there again
(`given_way_makes_files`).
-/

set_option autoImplicit false

namespace Relocation

open Files (FileSystem Entry)
open Files.FileSystem (Extends)
open Program Store

section GivingWay

variable {τ : Type} {store : StoreBehaviour τ} {dataDir : Path} {c : ClusterConfig}
  {s t : τ × FileSystem}

private theorem opened_held {fs fs' : FileSystem} {p : Path} {inode : Nat}
    (hfresh : fs.nextInode ∉ fs.held) (h : fs.answer (.openLock p) = (.ok inode, fs'))
    (hheld : inode ∈ fs'.held) : fs' = fs := by
  rcases Files.FileSystem.openFile_eq_ok (Files.FileSystem.openLock_eq_ok h) with
    ⟨rfl, -⟩ | ⟨l, -, rfl, rfl, -⟩
  · rfl
  · exact absurd hheld hfresh

/-- An export that gives way to one who holds the lock has made directories and nothing else. Where
no file that is still to be made is locked, it has changed nothing at all exactly when the directory
of the files was there already. -/
theorem given_way_iff (hfresh : s.2.nextInode ∉ s.2.held)
    (h : (exportConfig dataDir c).run (besideFiles store) s =
      (.ok (.requeueAfter lockRetryDelay), t)) :
    Extends Files.privateDirMode s.2 t.2 ∧
      (t.2 = s.2 ↔ s.2.isDirectory (exportDirs dataDir c.key).files = true) := by
  have hworld := refusing_besideFiles store
  have hending := exportConfig_ending hworld dataDir c s.1 s.2
  rw [h] at hending
  cases hending with
  | @busy s' made opened artifacts inode prepared held =>
    have hfresh' : made.nextInode ∉ made.held := by
      rwa [prepared.made_extends.nextInode, prepared.made_extends.held]
    obtain rfl : opened = made := opened_held hfresh' prepared.lockFile held
    have hname : PathName "files" := pathNames_files "files" (List.mem_singleton_self _)
    exact ⟨prepared.made_extends, Files.FileSystem.makeDirs_eq_self_iff
      (filesDir_named dataDir c.key) hname.not_idle hname.ne_dotdot prepared.directories⟩

end GivingWay

private def plainConfig : ClusterConfig where
  metadata := { name := some "site", space := some "edge" }
  spec := { relocation := { domain := "example.com" } }

private def heldTree : FileSystem where
  entries := ((((Table.empty.insert ["data"] (Entry.directory 0o755)).insert
    ["data", "namespaces"] (.directory 0o700)).insert
    ["data", "namespaces", "edge"] (.directory 0o700)).insert
    ["data", "namespaces", "edge", "site"] (.directory 0o700)).insert
    ["data", "namespaces", "edge", "site", ".lock"] (.file 0 0o600 "")
  nextInode := 1
  held := [0]

private def exportedTree : FileSystem :=
  heldTree.place ["data", "namespaces", "edge", "site", "files"] (.directory 0o700)

private def givingWay (fs : FileSystem) : Except Error Outcome × Memory × FileSystem :=
  (exportConfig ⟨true, ["data"]⟩ plainConfig).run (besideFiles Memory.answer) ({}, fs)

/-- An export beside another one changes nothing. -/
theorem given_way_unchanged :
    (givingWay exportedTree).1 = .ok (.requeueAfter lockRetryDelay) ∧
      (givingWay exportedTree).2.2 = exportedTree := by
  have hresult : (givingWay exportedTree).1 = .ok (.requeueAfter lockRetryDelay) := rfl
  have hrun : (exportConfig ⟨true, ["data"]⟩ plainConfig).run (besideFiles Memory.answer)
      ({}, exportedTree) =
        (.ok (.requeueAfter lockRetryDelay), (givingWay exportedTree).2) := Prod.ext hresult rfl
  have hfresh : exportedTree.nextInode ∉ exportedTree.held := by decide
  have hthere : exportedTree.isDirectory
      (exportDirs ⟨true, ["data"]⟩ plainConfig.key).files = true := rfl
  exact ⟨hresult, (given_way_iff hfresh hrun).2.2 hthere⟩

/-- An export beside a removal that has taken the files away already makes their directory anew. -/
theorem given_way_makes_files :
    (givingWay heldTree).1 = .ok (.requeueAfter lockRetryDelay) ∧
      heldTree.entries.get? ["data", "namespaces", "edge", "site", "files"] = none ∧
      (givingWay heldTree).2.2.entries.get? ["data", "namespaces", "edge", "site", "files"] =
        some (.directory 0o700) ∧
      (givingWay heldTree).2.2 ≠ heldTree := by
  have hbefore : heldTree.entries.get? ["data", "namespaces", "edge", "site", "files"] = none := rfl
  have hafter : (givingWay heldTree).2.2.entries.get?
      ["data", "namespaces", "edge", "site", "files"] = some (.directory 0o700) := rfl
  refine ⟨rfl, hbefore, hafter, fun heq => ?_⟩
  rw [heq, hbefore] at hafter
  cases hafter

end Relocation
