import Relocation.Proofs.Files.Making
import Relocation.Proofs.Files.Trees

/-!
What an operation does to a tree without links, place by place. A path leads to one place only, the
one where its parts lead to, so opening and writing a file is said of that place
(`openFile_place`, `writeFile_place`), and every operation leaves a tree a tree (`isTree_answer`).
Where every file has a number of its own, this stays so (`numbered_answer`).
-/

set_option autoImplicit false

namespace Relocation.Files

/-- The place of what a step of a removal takes away. -/
def Removal.place : Removal → Location
  | .unlink location | .removeDir location => location
  | .unlinkPath p | .removeDirPath p => lexical [] (FileSystem.trimSlashes p.parts)

namespace FileSystem

variable {fs fs' : FileSystem} {l : Location} {p : Path} {mode inode : Nat} {content : String}
  {step : Removal}

section Places

theorem FileAt.place (h : fs.IsTree) (hat : fs.FileAt p l) : l = lexical [] p.parts := by
  obtain ⟨number, m, old, hresolve⟩ := hat
  have hends := endsAt_resolve h true p
  rw [hresolve] at hends
  generalize hr : Except.ok (Halt.file l number m old) = r at hends
  cases hends with
  | file hfile =>
    cases hr
    rfl
  | _ => cases hr

/-- A file is opened as it stands at the place of its path, or made there. -/
theorem openFile_place (h : fs.IsTree) (hopen : fs.openFile mode p = .ok (inode, fs')) :
    (fs' = fs ∧ ∃ m old, fs.entries.get? (lexical [] p.parts) = some (.file inode m old)) ∨
      (fs.entries.get? (lexical [] p.parts) = none ∧ fs.Enters (lexical [] p.parts).dropLast ∧
        inode = fs.nextInode ∧ fs' = fs.placeFile (lexical [] p.parts) mode "") := by
  have hends := endsAt_resolve h true p
  rw [openFile] at hopen
  generalize fs.resolve true p = r at hopen hends
  cases hends with
  | directory => cases hopen
  | @file number m old hfile =>
    cases hopen
    exact .inl ⟨rfl, m, old, hfile⟩
  | @absent slash hnone _ hparent =>
    cases slash with
    | true => cases hopen
    | false =>
      cases hopen
      exact .inr ⟨hnone, hparent, rfl, rfl⟩
  | error e => cases hopen

/-- A file is written as it stands at the place of its path, or made there. -/
theorem writeFile_place (h : fs.IsTree) (hwrite : fs.writeFile mode p content = .ok fs') :
    (∃ number m old, fs.entries.get? (lexical [] p.parts) = some (.file number m old) ∧
        fs' = fs.place (lexical [] p.parts) (.file number m content)) ∨
      (fs.entries.get? (lexical [] p.parts) = none ∧ fs.Enters (lexical [] p.parts).dropLast ∧
        fs' = fs.placeFile (lexical [] p.parts) mode content) := by
  have hends := endsAt_resolve h true p
  rw [writeFile] at hwrite
  generalize fs.resolve true p = r at hwrite hends
  cases hends with
  | directory => cases hwrite
  | @file number m old hfile =>
    cases hwrite
    exact .inl ⟨number, m, old, hfile, rfl⟩
  | @absent slash hnone _ hparent =>
    cases slash with
    | true => cases hwrite
    | false =>
      cases hwrite
      exact .inr ⟨hnone, hparent, rfl⟩
  | error e => cases hwrite

end Places

section Trees

theorem isTree_empty : ({} : FileSystem).IsTree := ⟨fun _ _ => nofun, fun _ _ _ h => absurd rfl h⟩

private theorem isTree_placeFile (h : fs.IsTree) (hnone : fs.entries.get? l = none)
    (hparent : fs.Enters l.dropLast) (mode : Nat) (content : String) :
    (fs.placeFile l mode content).IsTree := by
  have hplaced : (fs.place l (.file fs.nextInode mode content)).IsTree :=
    isTree_place h (by simp) hparent (.inr (by simp [HasDir, hnone]))
  exact isTree_of_entries hplaced rfl

private theorem isTree_rewrite {old : String}
    (h : fs.IsTree) (hfile : fs.entries.get? l = some (.file inode mode old)) (content : String) :
    (fs.place l (.file inode mode content)).IsTree :=
  isTree_place h (by simp) (h.enters_parent (by simp [hfile])) (.inr (by simp [HasDir, hfile]))

theorem isTree_openFile (h : fs.IsTree) (hopen : fs.openFile mode p = .ok (inode, fs')) :
    fs'.IsTree := by
  rcases openFile_place h hopen with ⟨rfl, -⟩ | ⟨hnone, hparent, -, rfl⟩
  · exact h
  · exact isTree_placeFile h hnone hparent _ _

theorem isTree_writeFile (h : fs.IsTree) (hwrite : fs.writeFile mode p content = .ok fs') :
    fs'.IsTree := by
  rcases writeFile_place h hwrite with ⟨number, m, old, hold, rfl⟩ | ⟨hnone, hparent, rfl⟩
  · exact isTree_rewrite h hold content
  · exact isTree_placeFile h hnone hparent _ _

private theorem entries_tryLock (inode : Nat) : (fs.tryLock inode).2.entries = fs.entries := by
  rw [tryLock]
  split <;> rfl

private theorem isTree_unlinked (h : fs.IsTree) (hunlink : fs.unlink l = .ok fs') :
    fs'.IsTree := by
  by_cases hroot : l = []
  · subst hroot
    rw [unlink_ok hunlink]
    refine ⟨fun l' target hget => ?_, fun l' name hne hsome => ?_⟩
    · by_cases hl' : l' = []
      · simp [hl'] at hget
      · rw [Table.get?_erase_of_ne _ hl'] at hget
        exact h.linkless l' target hget
    · rw [Table.get?_erase_of_ne _ (by simp)] at hsome
      obtain ⟨m, hdir⟩ := h.closed l' name hne hsome
      exact ⟨m, (Table.get?_erase_of_ne _ hne).trans hdir⟩
  · exact isTree_unlink h hroot hunlink

theorem remove_place (h : fs.IsTree) (hremove : fs.remove step = .ok fs') :
    fs' = { fs with entries := fs.entries.erase step.place } ∧ fs'.IsTree := by
  cases step with
  | unlink l => exact ⟨unlink_ok hremove, isTree_unlinked h hremove⟩
  | removeDir l => exact ⟨removeDir_ok hremove, isTree_removeDir h hremove⟩
  | unlinkPath p =>
    have hends := endsAt_resolveName h p
    rw [remove] at hremove
    generalize fs.resolveName p = r at hremove hends
    cases hends with
    | directory => cases hremove
    | file =>
      have hunlink : fs.unlink (lexical [] (trimSlashes p.parts)) = .ok fs' := hremove
      exact ⟨unlink_ok hunlink, isTree_unlinked h hunlink⟩
    | absent => cases hremove
    | error e => cases hremove
  | removeDirPath p =>
    have hends := endsAt_resolveName h p
    rw [remove] at hremove
    split at hremove
    · generalize fs.resolveName p = r at hremove hends
      cases hends with
      | directory =>
        have hdir : fs.removeDir (lexical [] (trimSlashes p.parts)) = .ok fs' := hremove
        exact ⟨removeDir_ok hdir, isTree_removeDir h hdir⟩
      | file => cases hremove
      | absent => cases hremove
      | error e => cases hremove
    · cases hstat : fs.stat p <;> simp [hstat, bind, Except.bind] at hremove

/-- Whatever is asked of a tree, it stays one. -/
theorem isTree_answer (h : fs.IsTree) (call : FileCall) : (fs.answer call).2.IsTree := by
  cases call with
  | makeDirs p => exact (raised_makeDirs h privateDirMode p).tree
  | openLock p =>
    rw [answer]
    split
    · rename_i number after hopen
      exact isTree_openFile h hopen
    · exact h
  | tryLock inode => exact isTree_of_entries h (entries_tryLock inode)
  | release inode => exact isTree_of_entries h rfl
  | write p content =>
    rw [answer]
    cases hwrite : fs.writeFile artifactMode p content with
    | error e => exact h
    | ok after => exact isTree_writeFile h hwrite
  | remove step =>
    rw [answer]
    cases hremove : fs.remove step with
    | error e => exact h
    | ok after => exact (remove_place h hremove).2
  | stat p => exact h
  | read p => exact h
  | planRemoval p => exact h

end Trees

/-- Whether every file has a number of its own, one that was given out. -/
structure Numbered (fs : FileSystem) : Prop where
  given : ∀ l inode mode content, fs.entries.get? l = some (.file inode mode content) →
    inode < fs.nextInode
  own : ∀ l l' inode mode mode' content content',
    fs.entries.get? l = some (.file inode mode content) →
    fs.entries.get? l' = some (.file inode mode' content') → l = l'

section Numbers

theorem numbered_empty : ({} : FileSystem).Numbered :=
  ⟨fun _ _ _ _ => nofun, fun _ _ _ _ _ _ _ => nofun⟩

private theorem Numbered.of_fewer (h : fs.Numbered) (hnext : fs'.nextInode = fs.nextInode)
    (hold : ∀ l inode mode content, fs'.entries.get? l = some (.file inode mode content) →
      ∃ old, fs.entries.get? l = some (.file inode mode old)) : fs'.Numbered where
  given l inode mode content hfile := by
    obtain ⟨old, hfile⟩ := hold l inode mode content hfile
    rw [hnext]
    exact h.given l inode mode old hfile
  own l l' inode mode mode' content content' hfile hfile' := by
    obtain ⟨old, hfile⟩ := hold l inode mode content hfile
    obtain ⟨old', hfile'⟩ := hold l' inode mode' content' hfile'
    exact h.own l l' inode mode mode' old old' hfile hfile'

private theorem numbered_of_entries (h : fs.Numbered) (hentries : fs'.entries = fs.entries)
    (hnext : fs'.nextInode = fs.nextInode) : fs'.Numbered :=
  h.of_fewer hnext fun _ _ _ _ hfile => ⟨_, hentries ▸ hfile⟩

private theorem numbered_placeFile (h : fs.Numbered) (l : Location) (mode : Nat)
    (content : String) : (fs.placeFile l mode content).Numbered := by
  have hfiles {l' : Location} {inode m : Nat} {text : String}
      (hfile : (fs.placeFile l mode content).entries.get? l' = some (.file inode m text)) :
      l' = l ∧ inode = fs.nextInode ∨ fs.entries.get? l' = some (.file inode m text) := by
    by_cases hl : l' = l
    · subst hl
      have hnew := (Table.get?_insert_self _ _ _).symm.trans hfile
      cases hnew
      exact .inl ⟨rfl, rfl⟩
    · exact .inr ((Table.get?_insert_of_ne _ _ hl).symm.trans hfile)
  refine ⟨fun l' inode m text hfile => ?_, fun l' l'' inode m m' text text' hfile hfile' => ?_⟩
  · show inode < fs.nextInode + 1
    rcases hfiles hfile with ⟨-, rfl⟩ | hold
    · omega
    · have hlt := h.given l' inode m text hold
      omega
  · rcases hfiles hfile with ⟨rfl, rfl⟩ | hold <;> rcases hfiles hfile' with ⟨rfl, hnew⟩ | hold'
    · rfl
    · exact absurd (h.given _ _ _ _ hold') (Nat.lt_irrefl _)
    · exact absurd (hnew ▸ h.given _ _ _ _ hold) (Nat.lt_irrefl _)
    · exact h.own l' l'' inode m m' text text' hold hold'

private theorem numbered_makeDirs (h : fs.Numbered) (mode : Nat) (p : Path) :
    (fs.makeDirs mode p).2.Numbered := by
  have hextends := extends_makeDirs mode p fs
  refine h.of_fewer hextends.nextInode fun l inode m content hfile => ⟨content, ?_⟩
  cases hget : fs.entries.get? l with
  | none =>
    rcases hextends.made l hget with hnone | hdir
    · exact nomatch hnone.symm.trans hfile
    · exact nomatch hdir.symm.trans hfile
  | some entry => exact (hextends.kept l entry hget).symm.trans hfile

private theorem numbered_writeFile (h : fs.IsTree) (hn : fs.Numbered)
    (hwrite : fs.writeFile mode p content = .ok fs') : fs'.Numbered := by
  rcases writeFile_place h hwrite with ⟨number, m, old, hold, rfl⟩ | ⟨-, -, rfl⟩
  · refine hn.of_fewer rfl fun l inode m' text hfile => ?_
    by_cases hl : l = lexical [] p.parts
    · rw [hl, place, Table.get?_insert_self] at hfile
      cases hfile
      exact ⟨old, hl ▸ hold⟩
    · rw [place, Table.get?_insert_of_ne _ _ hl] at hfile
      exact ⟨text, hfile⟩
  · exact numbered_placeFile hn _ _ _

private theorem numbered_erase (h : fs.Numbered) (l : Location) :
    Numbered { fs with entries := fs.entries.erase l } := by
  refine h.of_fewer rfl fun l' inode mode content hfile => ⟨content, ?_⟩
  by_cases hl : l' = l
  · simp [hl] at hfile
  · rwa [Table.get?_erase_of_ne _ hl] at hfile

end Numbers

/-- Whatever is asked of a tree, its files keep numbers of their own. -/
theorem numbered_answer (h : fs.IsTree) (hn : fs.Numbered) (call : FileCall) :
    (fs.answer call).2.Numbered := by
  cases call with
  | makeDirs p => exact numbered_makeDirs hn privateDirMode p
  | openLock p =>
    rw [answer]
    split
    · rename_i number after hopen
      rcases openFile_place h hopen with ⟨rfl, -⟩ | ⟨-, -, -, rfl⟩
      · exact hn
      · exact numbered_placeFile hn _ _ _
    · exact hn
  | tryLock inode =>
    have hnext : (fs.tryLock inode).2.nextInode = fs.nextInode := by
      rw [tryLock]
      split <;> rfl
    exact numbered_of_entries hn (entries_tryLock inode) hnext
  | release inode => exact numbered_of_entries hn rfl rfl
  | write p content =>
    rw [answer]
    cases hwrite : fs.writeFile artifactMode p content with
    | error e => exact hn
    | ok after => exact numbered_writeFile h hn hwrite
  | remove step =>
    rw [answer]
    cases hremove : fs.remove step with
    | error e => exact hn
    | ok after =>
      obtain ⟨rfl, -⟩ := remove_place h hremove
      exact numbered_erase hn _
  | stat p => exact hn
  | read p => exact hn
  | planRemoval p => exact hn

end FileSystem

end Relocation.Files
