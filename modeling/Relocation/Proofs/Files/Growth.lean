import Relocation.Files.Calls
import Relocation.Proofs.Files.Way

/-!
Trees that grow: directories and links stay as they are, and a file stays the same file, whatever
its content. Every operation but a removal makes a tree grow (`grows_answer`), and in a tree that
has grown a path still leads to the file that it led to (`Grows.names`), above all to the one that
it was opened as (`names_of_opened`).
-/

set_option autoImplicit false

namespace Relocation.Files

/-- What is left of the end of a way once the tree has grown. -/
def Stays : Except IoError Halt → Except IoError Halt → Prop
  | .ok (.directory location), r => r = .ok (.directory location)
  | .ok (.file location inode mode _), r =>
    ∃ content, r = .ok (.file location inode mode content)
  | .ok (.detour here rest), r => r = .ok (.detour here rest)
  | _, _ => True

namespace FileSystem

variable {fs fs' fs'' : FileSystem} {followLast : Bool} {here location : Location}
  {parts : List String} {inode mode : Nat} {content : String} {p : Path}

/-- What stands in a tree stands in another too; only the contents of files may differ. -/
structure Grows (fs fs' : FileSystem) : Prop where
  directory : ∀ {location mode}, fs.entries.get? location = some (.directory mode) →
    fs'.entries.get? location = some (.directory mode)
  link : ∀ {location target}, fs.entries.get? location = some (.link target) →
    fs'.entries.get? location = some (.link target)
  file : ∀ {location inode mode content},
    fs.entries.get? location = some (.file inode mode content) →
    ∃ content', fs'.entries.get? location = some (.file inode mode content')

theorem Grows.of_more
    (h : ∀ l entry, fs.entries.get? l = some entry → fs'.entries.get? l = some entry) :
    fs.Grows fs' := ⟨h _ _, h _ _, fun hfile => ⟨_, h _ _ hfile⟩⟩

theorem Grows.refl (fs : FileSystem) : fs.Grows fs := .of_more fun _ _ => id

theorem grows_of_entries (h : fs'.entries = fs.entries) : fs.Grows fs' :=
  .of_more fun _ _ hget => h ▸ hget

theorem Grows.trans (h : fs.Grows fs') (h' : fs'.Grows fs'') : fs.Grows fs'' where
  directory hget := h'.directory (h.directory hget)
  link hget := h'.link (h.link hget)
  file hget := by
    obtain ⟨content, hget⟩ := h.file hget
    exact h'.file hget

theorem grows_place (h : fs.entries.get? location = none) (entry : Entry) :
    fs.Grows (fs.place location entry) := by
  refine .of_more fun l old hget => ?_
  have hne : l ≠ location := by
    rintro rfl
    simp [h] at hget
  rwa [place, Table.get?_insert_of_ne _ _ hne]

theorem grows_placeFile (h : fs.entries.get? location = none) (mode : Nat) (content : String) :
    fs.Grows (fs.placeFile location mode content) :=
  (grows_place h _).trans (grows_of_entries rfl)

theorem grows_rewrite (h : fs.entries.get? location = some (.file inode mode content))
    (text : String) : fs.Grows (fs.place location (.file inode mode text)) := by
  have other {l : Location} {entry : Entry} (hl : l ≠ location)
      (hget : fs.entries.get? l = some entry) :
      (fs.place location (.file inode mode text)).entries.get? l = some entry := by
    rwa [place, Table.get?_insert_of_ne _ _ hl]
  refine ⟨fun {l _} hget => ?_, fun {l _} hget => ?_, fun {l _ _ _} hget => ?_⟩
  · refine other ?_ hget
    rintro rfl
    simp [h] at hget
  · refine other ?_ hget
    rintro rfl
    simp [h] at hget
  · by_cases hl : l = location
    · subst hl
      simp_all [place]
    · exact ⟨_, other hl hget⟩

section Ways

theorem Way.grows {r : Except IoError Halt} (h : Way fs true here parts r) (hg : fs.Grows fs') :
    Stays r (fs'.advance true here parts) := by
  induction h with
  | arrived => rfl
  | idle idle _ ih => rwa [advance_idle idle]
  | up _ ih => rwa [advance_up]
  | enter plain hget _ ih => rwa [advance_directory plain (hg.directory hget)]
  | file plain hget =>
    obtain ⟨content, hget⟩ := hg.file hget
    rw [advance_file plain hget, if_pos List.isEmpty_nil]
    exact ⟨content, rfl⟩
  | detour plain hget hlast =>
    rw [advance_link plain (hg.link hget), if_neg]
    · rfl
    · rcases hlast with hrest | hfalse <;> simp_all
  | overlong _ => trivial
  | absent _ _ _ => trivial
  | lost _ _ _ => trivial
  | blocked _ _ _ => trivial
  | link _ _ _ => trivial

/-- A way that reaches something, through links or not, reaches it in a tree that has grown. -/
theorem walk_grows (hg : fs.Grows fs') (links : Nat) (here : Location) (parts : List String) :
    Stays (fs.walk true links here parts) (fs'.walk true links here parts) := by
  have direct (links : Nat) (here : Location) (parts : List String)
      (hd : ∀ l rest, fs.advance true here parts ≠ .ok (.detour l rest)) :
      Stays (fs.walk true links here parts) (fs'.walk true links here parts) := by
    rw [walk_eq_advance hd]
    have stays := (way_advance fs true here parts).grows hg
    cases hr : fs.advance true here parts with
    | error e => trivial
    | ok halt =>
      rw [hr] at stays hd
      cases halt with
      | directory location =>
        have stays : fs'.advance true here parts = .ok (.directory location) := stays
        rw [walk_eq_advance (by simp [stays]), stays]
        rfl
      | file location inode mode content =>
        obtain ⟨content, stays⟩ := stays
        rw [walk_eq_advance (by simp [stays]), stays]
        exact ⟨content, rfl⟩
      | detour l rest => exact absurd rfl (hd l rest)
      | link location => trivial
      | absent location slash => trivial
  induction links generalizing here parts with
  | zero =>
    by_cases hd : ∃ l rest, fs.advance true here parts = .ok (.detour l rest)
    · obtain ⟨l, rest, hd⟩ := hd
      rw [walk_zero_detour hd]
      trivial
    · exact direct 0 here parts fun l rest heq => hd ⟨l, rest, heq⟩
  | succ links ih =>
    by_cases hd : ∃ l rest, fs.advance true here parts = .ok (.detour l rest)
    · obtain ⟨l, rest, hd⟩ := hd
      have stays := (way_advance fs true here parts).grows hg
      rw [hd] at stays
      rw [walk_succ_detour hd, walk_succ_detour stays]
      exact ih l rest
    · exact direct (links + 1) here parts fun l rest heq => hd ⟨l, rest, heq⟩

/-- What the end of a way says about the place where it is. -/
def Shows (fs : FileSystem) : Except IoError Halt → Prop
  | .ok (.file location inode mode content) =>
    fs.entries.get? location = some (.file inode mode content)
  | .ok (.absent location _) => fs.entries.get? location = none
  | _ => True

theorem Way.shows {r : Except IoError Halt} (h : Way fs followLast here parts r) : fs.Shows r := by
  induction h with
  | idle _ _ ih => exact ih
  | up _ ih => exact ih
  | enter _ _ _ ih => exact ih
  | absent _ hget _ => exact hget
  | file _ hget => exact hget
  | _ => trivial

theorem walk_shows (links : Nat) (here : Location) (parts : List String) :
    fs.Shows (fs.walk followLast links here parts) := by
  induction links generalizing here parts with
  | zero =>
    rw [walk]
    split
    · trivial
    · exact (way_advance fs followLast here parts).shows
  | succ links ih =>
    rw [walk]
    split
    · exact ih _ _
    · exact (way_advance fs followLast here parts).shows

theorem resolve_shows (p : Path) : fs.Shows (fs.resolve followLast p) := by
  unfold resolve
  cases checkPath p with
  | error e => trivial
  | ok u => exact walk_shows _ _ _

theorem resolveName_shows (p : Path) : fs.Shows (fs.resolveName p) := by
  unfold resolveName
  cases checkPath p with
  | error e => trivial
  | ok u => exact walk_shows _ _ _

private theorem Way.filled {r : Except IoError Halt} (h : Way fs true here parts r)
    (hr : r = .ok (.absent location false)) (hg : fs.Grows fs')
    (hfile : fs'.entries.get? location = some (.file inode mode content)) :
    fs'.advance true here parts = .ok (.file location inode mode content) := by
  induction h with
  | idle idle _ ih => rw [advance_idle idle, ih hr]
  | up _ ih => rw [advance_up, ih hr]
  | enter plain hget _ ih => rw [advance_directory plain (hg.directory hget), ih hr]
  | @absent here name rest plain _ _ =>
    obtain ⟨rfl, rfl⟩ : here ++ [name] = location ∧ rest = [] := by simpa using hr
    rw [advance_file plain hfile, if_pos List.isEmpty_nil]
  | arrived => simp at hr
  | overlong _ => simp at hr
  | lost _ _ _ => simp at hr
  | file _ _ => simp at hr
  | blocked _ _ _ => simp at hr
  | link _ _ _ => simp at hr
  | detour _ _ _ => simp [FileSystem.detour] at hr

theorem walk_filled {links : Nat} (hg : fs.Grows fs')
    (hfile : fs'.entries.get? location = some (.file inode mode content))
    (h : fs.walk true links here parts = .ok (.absent location false)) :
    fs'.walk true links here parts = .ok (.file location inode mode content) := by
  have direct {links : Nat} {here : Location} {parts : List String}
      (h : fs.advance true here parts = .ok (.absent location false)) :
      fs'.walk true links here parts = .ok (.file location inode mode content) := by
    have filled := (way_advance fs true here parts).filled h hg hfile
    rw [walk_eq_advance (by simp [filled]), filled]
  induction links generalizing here parts with
  | zero =>
    rw [walk] at h
    split at h
    · cases h
    · exact direct h
  | succ links ih =>
    rw [walk] at h
    split at h
    · rename_i l rest hd
      have stays := (way_advance fs true here parts).grows hg
      rw [hd] at stays
      rw [walk_succ_detour stays]
      exact ih h
    · exact direct h

end Ways

/-- Whether a path leads to the file of a number. -/
def Names (fs : FileSystem) (p : Path) (inode : Nat) : Prop :=
  ∃ location mode content, fs.resolve true p = .ok (.file location inode mode content)

theorem Names.inode_eq {inode' : Nat} (h : fs.Names p inode) (h' : fs.Names p inode') :
    inode = inode' := by
  obtain ⟨_, _, _, h⟩ := h
  obtain ⟨_, _, _, h'⟩ := h'
  rw [h] at h'
  cases h'
  rfl

theorem Grows.names (hg : fs.Grows fs') (h : fs.Names p inode) : fs'.Names p inode := by
  obtain ⟨location, mode, content, h⟩ := h
  unfold resolve at h
  cases hp : checkPath p with
  | error e => simp [hp, bind, Except.bind] at h
  | ok u =>
    rw [hp] at h
    have stays := walk_grows hg maxLinks [] p.parts
    rw [show fs.walk true maxLinks [] p.parts = _ from h] at stays
    obtain ⟨content, stays⟩ := stays
    refine ⟨location, mode, content, ?_⟩
    rw [resolve, hp]
    exact stays

section Directories

theorem makeDir_eq_ok (h : fs.makeDir mode p = .ok fs') :
    ∃ l, fs.entries.get? l = none ∧ fs' = fs.place l (.directory mode) := by
  unfold makeDir at h
  split at h
  · cases hr : fs.resolveName p with
    | error e => simp [hr, bind, Except.bind] at h
    | ok halt =>
      have shows : fs.Shows (.ok halt) := hr ▸ resolveName_shows p
      rw [hr] at h
      cases halt with
      | absent l slash => exact ⟨l, shows, (Except.ok.inj h).symm⟩
      | _ => cases h
  · cases hs : fs.stat p <;> simp [hs, bind, Except.bind] at h

variable (keeps : FileSystem → FileSystem → Prop) {above : List Path}

theorem makeDirsAlong_keeps (refl : ∀ fs, keeps fs fs)
    (trans : ∀ {fs fs' fs''}, keeps fs fs' → keeps fs' fs'' → keeps fs fs'')
    (step : ∀ q ∈ p :: above, ∀ {fs fs'}, makeDir fs mode q = .ok fs' → keeps fs fs')
    (fs : FileSystem) : keeps fs (makeDirsAlong mode p above fs).2 := by
  induction above generalizing p fs with
  | nil =>
    rw [makeDirsAlong]
    split
    · rename_i fs' hmake
      exact step p List.mem_cons_self hmake
    · exact refl fs
  | cons up above ih =>
    rw [makeDirsAlong]
    split
    · rename_i fs' hmake
      exact step p List.mem_cons_self hmake
    · split
      · have first := ih (fun q hq => step q (List.mem_cons_of_mem p hq)) fs
        split
        · rename_i e fs' habove
          rwa [habove] at first
        · rename_i fs' habove
          rw [habove] at first
          split
          · rename_i fs'' hmake
            exact trans first (step p List.mem_cons_self hmake)
          · exact first
      · exact refl fs

theorem makeDirs_last (refl : ∀ fs, keeps fs fs)
    (trans : ∀ {fs fs' fs''}, keeps fs fs' → keeps fs' fs'' → keeps fs fs'')
    (step : ∀ q {fs fs'}, makeDir fs mode q = .ok fs' → keeps fs fs')
    (h : fs.makeDirs mode p = (.ok (), fs')) :
    ∃ between, keeps fs between ∧ (between.makeDir mode p = .ok fs' ∨
      fs' = between ∧ between.isDirectory p = true) := by
  have tried {between : FileSystem} {e : IoError} (hkeeps : keeps fs between)
      (h : ((if between.isDirectory p then .ok () else .error e : Except IoError Unit), between) =
        (.ok (), fs')) :
      ∃ between, keeps fs between ∧ (between.makeDir mode p = .ok fs' ∨
        fs' = between ∧ between.isDirectory p = true) := by
    obtain ⟨hdir, rfl⟩ := Prod.mk.inj h
    refine ⟨between, hkeeps, .inr ⟨rfl, ?_⟩⟩
    split at hdir
    · assumption
    · cases hdir
  have made {between fs1 : FileSystem} (hkeeps : keeps fs between)
      (hmake : between.makeDir mode p = .ok fs1)
      (h : ((.ok (), fs1) : Except IoError Unit × FileSystem) = (.ok (), fs')) :
      ∃ between, keeps fs between ∧ (between.makeDir mode p = .ok fs' ∨
        fs' = between ∧ between.isDirectory p = true) := by
    obtain ⟨-, rfl⟩ := Prod.mk.inj h
    exact ⟨between, hkeeps, .inl hmake⟩
  unfold makeDirs at h
  cases habove : ancestors p.absolute p.parts.length p.parts with
  | nil =>
    rw [habove, makeDirsAlong] at h
    split at h
    · rename_i fs1 hmake
      exact made (refl fs) hmake h
    · exact tried (refl fs) h
  | cons up above =>
    rw [habove, makeDirsAlong] at h
    split at h
    · rename_i fs1 hmake
      exact made (refl fs) hmake h
    · split at h
      · have hkeeps : keeps fs (makeDirsAlong mode up above fs).2 :=
          makeDirsAlong_keeps keeps refl trans (fun q _ => step q) fs
        split at h
        · cases h
        · rename_i fs1 heq
          rw [heq] at hkeeps
          split at h
          · rename_i fs2 hmake
            exact made hkeeps hmake h
          · exact tried hkeeps h
      · exact tried (refl fs) h

end Directories

section Calls

private theorem shows_of_resolve {halt : Halt} (h : fs.resolve followLast p = .ok halt) :
    fs.Shows (.ok halt) := h ▸ resolve_shows p

theorem resolve_filled (hg : fs.Grows fs')
    (hr : fs.resolve true p = .ok (.absent location false))
    (hfile : fs'.entries.get? location = some (.file inode mode content)) :
    fs'.resolve true p = .ok (.file location inode mode content) := by
  unfold resolve at hr ⊢
  cases hp : checkPath p with
  | error e => simp [hp, bind, Except.bind] at hr
  | ok u =>
    rw [hp] at hr
    exact walk_filled hg hfile hr

theorem openFile_eq_ok (h : fs.openFile mode p = .ok (inode, fs')) :
    fs' = fs ∧ fs.Names p inode ∨ ∃ l, fs.entries.get? l = none ∧ inode = fs.nextInode ∧
      fs' = fs.placeFile l mode "" ∧ fs'.resolve true p = .ok (.file l inode mode "") := by
  unfold openFile at h
  cases hr : fs.resolve true p with
  | error e => simp [hr, bind, Except.bind] at h
  | ok halt =>
    have shows := shows_of_resolve hr
    rw [hr] at h
    cases halt with
    | file l number m content =>
      cases h
      exact .inl ⟨rfl, l, m, content, hr⟩
    | absent l slash =>
      cases slash with
      | true => cases h
      | false =>
        cases h
        exact .inr ⟨l, shows, rfl, rfl,
          resolve_filled (grows_placeFile shows mode "") hr (Table.get?_insert_self _ _ _)⟩
    | _ => cases h

theorem openLock_eq_ok (h : fs.answer (.openLock p) = (.ok inode, fs')) :
    fs.openFile lockFileMode p = .ok (inode, fs') := by
  rw [answer] at h
  split at h
  · rename_i number after hopen
    cases h
    exact hopen
  · cases h

/-- A file that was opened is the one that its path leads to. -/
theorem names_of_opened (h : fs.answer (.openLock p) = (.ok inode, fs')) : fs'.Names p inode := by
  rcases openFile_eq_ok (openLock_eq_ok h) with ⟨rfl, hnames⟩ | ⟨l, -, -, -, hr⟩
  · exact hnames
  · exact ⟨l, lockFileMode, "", hr⟩

/-- A tree has grown, and the same files are locked. -/
structure Builds (fs fs' : FileSystem) : Prop extends Grows fs fs' where
  held : fs'.held = fs.held

theorem Builds.refl (fs : FileSystem) : fs.Builds fs := ⟨.refl fs, rfl⟩

private theorem builds_makeDir (h : fs.makeDir mode p = .ok fs') : fs.Builds fs' := by
  obtain ⟨l, hnone, rfl⟩ := makeDir_eq_ok h
  exact ⟨grows_place hnone _, rfl⟩

private theorem builds_makeDirs (mode : Nat) (p : Path) (fs : FileSystem) :
    fs.Builds (fs.makeDirs mode p).2 :=
  makeDirsAlong_keeps Builds Builds.refl
    (fun h h' => ⟨h.toGrows.trans h'.toGrows, h'.held.trans h.held⟩) (fun _ _ => builds_makeDir) fs

private theorem builds_writeFile (h : fs.writeFile mode p content = .ok fs') : fs.Builds fs' := by
  unfold writeFile at h
  cases hr : fs.resolve true p with
  | error e => simp [hr, bind, Except.bind] at h
  | ok halt =>
    have shows := shows_of_resolve hr
    rw [hr] at h
    cases halt with
    | file location inode mode old =>
      obtain rfl := Except.ok.inj h
      exact ⟨grows_rewrite shows content, rfl⟩
    | absent location slash =>
      cases slash with
      | true => cases h
      | false =>
        obtain rfl := Except.ok.inj h
        exact ⟨grows_placeFile shows mode content, rfl⟩
    | _ => cases h

private theorem builds_openFile {number : Nat} (h : fs.openFile mode p = .ok (number, fs')) :
    fs.Builds fs' := by
  rcases openFile_eq_ok h with ⟨rfl, -⟩ | ⟨l, hnone, -, rfl, -⟩
  · exact .refl fs'
  · exact ⟨grows_placeFile hnone mode "", rfl⟩

theorem answer_tryLock_held (h : inode ∈ fs.held) :
    fs.answer (.tryLock inode) = (.ok false, fs) := by
  simp [answer, tryLock, h]

theorem answer_tryLock_free (h : inode ∉ fs.held) :
    fs.answer (.tryLock inode) = (.ok true, { fs with held := inode :: fs.held }) := by
  simp [answer, tryLock, h]

theorem builds_answer {call : FileCall} (hremove : ∀ step, call ≠ .remove step)
    (htry : ∀ inode, call ≠ .tryLock inode) (hrelease : ∀ inode, call ≠ .release inode) :
    fs.Builds (fs.answer call).2 := by
  cases call with
  | makeDirs p => exact builds_makeDirs privateDirMode p fs
  | openLock p =>
    rw [answer]
    split
    · rename_i inode after hopen
      exact builds_openFile hopen
    · exact .refl fs
  | write p content =>
    rw [answer]
    cases hwrite : fs.writeFile artifactMode p content with
    | error e => exact .refl fs
    | ok after => exact builds_writeFile hwrite
  | tryLock inode => exact absurd rfl (htry inode)
  | release inode => exact absurd rfl (hrelease inode)
  | remove step => exact absurd rfl (hremove step)
  | _ => exact .refl fs

theorem grows_answer {call : FileCall} (hremove : ∀ step, call ≠ .remove step) :
    fs.Grows (fs.answer call).2 := by
  cases call with
  | tryLock inode =>
    refine grows_of_entries ?_
    rw [answer, tryLock]
    split <;> rfl
  | release inode => exact grows_of_entries rfl
  | remove step => exact absurd rfl (hremove step)
  | _ => exact (builds_answer (by simp) (by simp) (by simp)).toGrows

end Calls

end FileSystem

end Relocation.Files
