import Relocation.Proofs.Files.Growth

/-!
Making directories in any tree, with links or without. Nothing that stands there is changed, and
what is new is a directory (`extends_makeDirs`); nothing at all is new exactly when the path leads
to a directory already (`makeDirs_eq_self_iff`).
-/

set_option autoImplicit false

namespace Relocation.Files.FileSystem

variable {fs fs' fs'' : FileSystem} {here location : Location} {parts front : List String}
  {last : String} {mode : Nat} {p : Path}

section Unfollowed

private theorem Way.unfollowed {r : Except IoError Halt} (h : Way fs true here parts r) :
    fs.advance false here parts = r ∨
      ∃ l, fs.advance false here parts = .ok (.link l) := by
  induction h with
  | arrived => exact .inl rfl
  | idle idle _ ih => rwa [advance_idle idle]
  | up _ ih => rwa [advance_up]
  | overlong long => exact .inl (advance_overlong long)
  | absent plain hget hall =>
    exact .inl (by rw [advance_none plain hget, if_pos (by simpa using hall)])
  | lost plain hget hall =>
    exact .inl (by rw [advance_none plain hget, if_neg (by simpa using hall)])
  | enter plain hget _ ih => rwa [advance_directory plain hget]
  | file plain hget => exact .inl (by rw [advance_file plain hget, if_pos List.isEmpty_nil])
  | blocked plain hget hrest =>
    exact .inl (by rw [advance_file plain hget, if_neg (by simpa using hrest)])
  | link _ _ hlast => cases hlast
  | @detour here name rest target plain hget _ =>
    rw [advance_link plain hget]
    by_cases hrest : rest = []
    · exact .inr ⟨_, if_pos (by simp [hrest])⟩
    · exact .inl (if_neg (by simp [hrest]))

private theorem walk_unfollowed {links : Nat}
    (h : fs.walk true links here parts = .ok (.directory location)) :
    fs.walk false links here parts = .ok (.directory location) ∨
      ∃ l, fs.walk false links here parts = .ok (.link l) := by
  have ended {links : Nat} {here : Location} {parts : List String}
      (hd : ∀ l rest, fs.advance true here parts ≠ .ok (.detour l rest))
      (h : fs.walk true links here parts = .ok (.directory location)) :
      fs.walk false links here parts = .ok (.directory location) ∨
        ∃ l, fs.walk false links here parts = .ok (.link l) := by
    rw [walk_eq_advance hd] at h
    rcases (way_advance fs true here parts).unfollowed with hsame | ⟨l, hlink⟩
    · rw [walk_eq_advance (by simp [hsame, h])]
      exact .inl (hsame.trans h)
    · rw [walk_eq_advance (by simp [hlink])]
      exact .inr ⟨l, hlink⟩
  induction links generalizing here parts with
  | zero =>
    by_cases hd : ∃ l rest, fs.advance true here parts = .ok (.detour l rest)
    · obtain ⟨l, rest, hd⟩ := hd
      cases (walk_zero_detour hd).symm.trans h
    · exact ended (fun l rest heq => hd ⟨l, rest, heq⟩) h
  | succ links ih =>
    by_cases hd : ∃ l rest, fs.advance true here parts = .ok (.detour l rest)
    · obtain ⟨l, rest, hd⟩ := hd
      rw [walk_succ_detour hd] at h
      rcases (way_advance fs true here parts).unfollowed with hsame | ⟨l', hlink⟩
      · rw [walk_succ_detour (hsame.trans hd)]
        exact ih h
      · rw [walk_eq_advance (by simp [hlink])]
        exact .inr ⟨l', hlink⟩
    · exact ended (fun l rest heq => hd ⟨l, rest, heq⟩) h

theorem makeDir_of_isDirectory (hparts : p.parts = front ++ [last]) (hlast : ¬Idle last)
    (hup : last ≠ "..") (hdir : fs.isDirectory p = true) :
    fs.makeDir mode p = .error .alreadyExists := by
  obtain ⟨hends, hname⟩ := named_concat hparts hlast hup
  rw [makeDir, if_pos hends, hname]
  unfold isDirectory resolve at hdir
  unfold resolve
  cases hp : checkPath p with
  | error e => simp [hp, bind, Except.bind] at hdir
  | ok u =>
    simp only [hp, bind, Except.bind] at hdir ⊢
    split at hdir
    · rename_i l heq
      rcases walk_unfollowed heq with hsame | ⟨l', hlink⟩
      · rw [hsame]
      · rw [hlink]
    · cases hdir

end Unfollowed

/-- A tree has nothing more than another but directories. -/
structure Extends (mode : Nat) (fs fs' : FileSystem) : Prop where
  kept : ∀ l entry, fs.entries.get? l = some entry → fs'.entries.get? l = some entry
  made : ∀ l, fs.entries.get? l = none →
    fs'.entries.get? l = none ∨ fs'.entries.get? l = some (.directory mode)
  nextInode : fs'.nextInode = fs.nextInode
  held : fs'.held = fs.held

section Extends

theorem Extends.refl (fs : FileSystem) : Extends mode fs fs :=
  ⟨fun _ _ => id, fun _ => .inl, rfl, rfl⟩

theorem Extends.trans (h : Extends mode fs fs') (h' : Extends mode fs' fs'') :
    Extends mode fs fs'' where
  kept l entry hget := h'.kept l entry (h.kept l entry hget)
  made l hget := by
    rcases h.made l hget with hnone | hdir
    · exact h'.made l hnone
    · exact .inr (h'.kept l _ hdir)
  nextInode := h'.nextInode.trans h.nextInode
  held := h'.held.trans h.held

theorem extends_makeDir (h : fs.makeDir mode p = .ok fs') : Extends mode fs fs' := by
  obtain ⟨l, hnone, rfl⟩ := makeDir_eq_ok h
  refine ⟨fun l' entry hget => ?_, fun l' hget => ?_, rfl, rfl⟩
  · have hne : l' ≠ l := by
      rintro rfl
      exact nomatch hnone.symm.trans hget
    rwa [place, Table.get?_insert_of_ne _ _ hne]
  · by_cases hl : l' = l
    · exact .inr (by rw [hl, place, Table.get?_insert_self])
    · exact .inl (by rwa [place, Table.get?_insert_of_ne _ _ hl])

theorem extends_makeDirs (mode : Nat) (p : Path) (fs : FileSystem) :
    Extends mode fs (fs.makeDirs mode p).2 :=
  makeDirsAlong_keeps (Extends mode) Extends.refl Extends.trans (fun _ _ => extends_makeDir) fs

private theorem ne_of_made (h : Extends mode fs fs') (hmake : fs'.makeDir mode p = .ok fs'') :
    fs'' ≠ fs := by
  rintro rfl
  obtain ⟨l, hnone, heq⟩ := makeDir_eq_ok hmake
  have hnew : fs''.entries.get? l = some (.directory mode) := by
    rw [heq, place, Table.get?_insert_self]
  rw [h.kept l _ hnew] at hnone
  cases hnone

theorem makeDirs_of_isDirectory (hparts : p.parts = front ++ [last]) (hlast : ¬Idle last)
    (hup : last ≠ "..") (hdir : fs.isDirectory p = true) : fs.makeDirs mode p = (.ok (), fs) := by
  have hexists : fs.makeDir mode p = .error .alreadyExists :=
    makeDir_of_isDirectory hparts hlast hup hdir
  have hfound : IoError.alreadyExists.isNotFound = false := rfl
  unfold makeDirs
  cases ancestors p.absolute p.parts.length p.parts <;>
    simp [makeDirsAlong, hexists, hdir, hfound]

/-- Making directories changes nothing exactly when the path leads to a directory already. -/
theorem makeDirs_eq_self_iff (hparts : p.parts = front ++ [last]) (hlast : ¬Idle last)
    (hup : last ≠ "..") (hmake : fs.makeDirs mode p = (.ok (), fs')) :
    fs' = fs ↔ fs.isDirectory p = true := by
  constructor
  · rintro rfl
    obtain ⟨between, hextends, hmade | ⟨rfl, hdir⟩⟩ :=
      makeDirs_last (Extends mode) Extends.refl Extends.trans (fun _ => extends_makeDir) hmake
    · exact absurd rfl (ne_of_made hextends hmade)
    · exact hdir
  · intro hdir
    rw [makeDirs_of_isDirectory hparts hlast hup hdir] at hmake
    exact (congrArg Prod.snd hmake).symm

end Extends

end Relocation.Files.FileSystem
