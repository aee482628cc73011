import Relocation.Proofs.Files.Growth
import Relocation.Proofs.Files.Removal

/-!
Trees without links. A path leads to one place only there, at which its last name stands
(`FileAt.getLast?`), so paths with different names at their ends never lead to one file. Directories
that were made are there (`isDirectory_of_makeDirs`), and what was written can be read
(`readFile_of_write`).
-/

set_option autoImplicit false

namespace Relocation.Files.FileSystem

/-- Whether there is no link in a tree. -/
def Linkless (fs : FileSystem) : Prop := ∀ l target, fs.entries.get? l ≠ some (.link target)

variable {fs fs' : FileSystem} {followLast : Bool} {here location : Location}
  {parts front : List String} {last : String} {mode : Nat} {content : String} {p : Path}

section Ways

theorem Way.ne_detour {r : Except IoError Halt} (h : Way fs followLast here parts r)
    (hl : fs.Linkless) (l : Location) (rest : List String) : r ≠ .ok (.detour l rest) := by
  induction h with
  | idle _ _ ih => exact ih
  | up _ ih => exact ih
  | enter _ _ _ ih => exact ih
  | detour _ hget _ => exact absurd hget (hl _ _)
  | _ => exact nofun

private theorem Way.follow {r : Except IoError Halt} (h : Way fs followLast here parts r)
    (hl : fs.Linkless) (followLast' : Bool) : fs.advance followLast' here parts = r := by
  induction h with
  | arrived => rfl
  | idle idle _ ih => rw [advance_idle idle, ih]
  | up _ ih => rw [advance_up, ih]
  | overlong long => exact advance_overlong long
  | absent plain hget hall => rw [advance_none plain hget, if_pos (by simpa using hall)]
  | lost plain hget hall => rw [advance_none plain hget, if_neg (by simpa using hall)]
  | enter plain hget _ ih => rw [advance_directory plain hget, ih]
  | file plain hget => rw [advance_file plain hget, if_pos List.isEmpty_nil]
  | blocked plain hget hrest => rw [advance_file plain hget, if_neg (by simpa using hrest)]
  | link _ hget _ => exact absurd hget (hl _ _)
  | detour _ hget _ => exact absurd hget (hl _ _)

theorem resolve_linkless (hl : fs.Linkless) (p : Path) :
    fs.resolve followLast p = checkPath p >>= fun _ => fs.advance true [] p.parts := by
  have hway := way_advance fs followLast [] p.parts
  rw [resolve, walk_eq_advance (hway.ne_detour hl), hway.follow hl true]

private theorem Way.last_of_halt {r : Except IoError Halt} (h : Way fs true here parts r)
    (hr : (∃ inode mode content, r = .ok (.file location inode mode content)) ∨
      r = .ok (.absent location false)) :
    parts ≠ [] ∧ location.getLast? = parts.getLast? := by
  induction h with
  | idle _ _ ih =>
    obtain ⟨hne, hlast⟩ := ih hr
    exact ⟨by simp, by rw [hlast, List.getLast?_cons_of_ne_nil hne]⟩
  | up _ ih =>
    obtain ⟨hne, hlast⟩ := ih hr
    exact ⟨by simp, by rw [hlast, List.getLast?_cons_of_ne_nil hne]⟩
  | enter _ _ _ ih =>
    obtain ⟨hne, hlast⟩ := ih hr
    exact ⟨by simp, by rw [hlast, List.getLast?_cons_of_ne_nil hne]⟩
  | @file here name inode mode content _ _ =>
    obtain rfl : here ++ [name] = location := by simpa using hr
    simp
  | @absent here name rest _ _ _ =>
    obtain ⟨rfl, rfl⟩ : here ++ [name] = location ∧ rest = [] := by simpa using hr
    simp
  | detour => simp [FileSystem.detour] at hr
  | _ => simp at hr

theorem resolve_last (hl : fs.Linkless) {halt : Halt} (h : fs.resolve true p = .ok halt)
    (hhalt : (∃ inode mode content, halt = .file location inode mode content) ∨
      halt = .absent location false) : location.getLast? = p.parts.getLast? := by
  rw [resolve_linkless hl] at h
  cases hp : checkPath p with
  | error e => simp [hp, bind, Except.bind] at h
  | ok u =>
    rw [hp] at h
    have hadvance : fs.advance true [] p.parts = .ok halt := h
    have hway := way_advance fs true [] p.parts
    rw [hadvance] at hway
    refine (hway.last_of_halt ?_).2
    rcases hhalt with ⟨inode, mode, content, rfl⟩ | rfl
    · exact .inl ⟨inode, mode, content, rfl⟩
    · exact .inr rfl

end Ways

section Linkless

theorem linkless_place (h : fs.Linkless) {entry : Entry} (hentry : ∀ target, entry ≠ .link target)
    (location : Location) : (fs.place location entry).Linkless := by
  intro l target hget
  by_cases hl : l = location
  · rw [hl, place, Table.get?_insert_self] at hget
    exact hentry target (Option.some.inj hget)
  · rw [place, Table.get?_insert_of_ne _ _ hl] at hget
    exact h l target hget

theorem linkless_of_entries (h : fs.Linkless) (hentries : fs'.entries = fs.entries) :
    fs'.Linkless := by
  intro l target
  rw [hentries]
  exact h l target

private theorem linkless_makeDir (h : fs.Linkless) (hmake : fs.makeDir mode p = .ok fs') :
    fs'.Linkless := by
  obtain ⟨l, -, rfl⟩ := makeDir_eq_ok hmake
  exact linkless_place h (by simp) l

theorem linkless_makeDirs (h : fs.Linkless) (mode : Nat) (p : Path) :
    (fs.makeDirs mode p).2.Linkless :=
  makeDirsAlong_keeps (fun fs fs' => fs.Linkless → fs'.Linkless) (fun _ => id)
    (fun hfirst hlater h => hlater (hfirst h)) (fun _ _ _ _ hmake h => linkless_makeDir h hmake) fs
    h

theorem linkless_openFile {inode : Nat} (h : fs.Linkless)
    (hopen : fs.openFile mode p = .ok (inode, fs')) : fs'.Linkless := by
  rcases openFile_eq_ok hopen with ⟨rfl, -⟩ | ⟨l, -, -, rfl, -⟩
  · exact h
  · exact linkless_of_entries (linkless_place h (by simp) l) rfl

end Linkless

section MakeDirs

private theorem advance_empty (h : ∀ s ∈ parts, s = "") :
    fs.advance followLast here parts = .ok (.directory here) := by
  induction parts with
  | nil => rfl
  | cons s rest ih =>
    rw [advance_idle (.inl (h s List.mem_cons_self))]
    exact ih fun t ht => h t (List.mem_cons_of_mem s ht)

private theorem Way.filled_directory {r : Except IoError Halt} {slash : Bool}
    (h : Way fs true here parts r) (hr : r = .ok (.absent location slash)) (hg : fs.Grows fs')
    (hdir : fs'.entries.get? location = some (.directory mode)) :
    fs'.advance true here parts = .ok (.directory location) := by
  induction h with
  | idle idle _ ih => rw [advance_idle idle, ih hr]
  | up _ ih => rw [advance_up, ih hr]
  | enter plain hget _ ih => rw [advance_directory plain (hg.directory hget), ih hr]
  | @absent here name rest plain _ hall =>
    obtain ⟨rfl, -⟩ : here ++ [name] = location ∧ _ := by simpa using hr
    rw [advance_directory plain hdir, advance_empty hall]
  | detour => simp [FileSystem.detour] at hr
  | _ => simp at hr

section Named

variable (hparts : p.parts = front ++ [last]) (hlast : ¬Idle last) (hup : last ≠ "..")

include hparts hlast hup

private theorem isDirectory_of_makeDir (h : fs.Linkless) (hmake : fs.makeDir mode p = .ok fs') :
    fs'.isDirectory p = true := by
  have hlinkless : fs'.Linkless := linkless_makeDir h hmake
  obtain ⟨hends, hname⟩ := named_concat hparts hlast hup
  rw [makeDir, if_pos hends, hname, resolve_linkless h] at hmake
  cases hp : checkPath p with
  | error e => simp [hp, bind, Except.bind] at hmake
  | ok u =>
    cases hadvance : fs.advance true [] p.parts with
    | error e => simp [hp, hadvance, bind, Except.bind] at hmake
    | ok halt =>
      simp only [hp, hadvance, bind, Except.bind] at hmake
      cases halt with
      | absent l slash =>
        have hnone : fs.entries.get? l = none := by
          have hshows := (way_advance fs true [] p.parts).shows
          rwa [hadvance] at hshows
        obtain rfl := Except.ok.inj hmake
        have hdir : (fs.place l (.directory mode)).advance true [] p.parts =
            .ok (.directory l) :=
          (way_advance fs true [] p.parts).filled_directory hadvance (grows_place hnone _)
            (Table.get?_insert_self _ _ _)
        rw [isDirectory, resolve_linkless hlinkless, hp, hdir]
        rfl
      | _ => cases hmake

/-- Directories that were made are there. -/
theorem isDirectory_of_makeDirs (h : fs.Linkless) (hmake : fs.makeDirs mode p = (.ok (), fs')) :
    fs'.isDirectory p = true := by
  obtain ⟨between, hlinkless, hlast' | ⟨rfl, hdir⟩⟩ :=
    makeDirs_last (fun fs fs' => fs.Linkless → fs'.Linkless) (fun _ => id)
      (fun hfirst hlater h => hlater (hfirst h)) (fun _ _ _ hmake h => linkless_makeDir h hmake)
      hmake
  · exact isDirectory_of_makeDir hparts hlast hup (hlinkless h) hlast'
  · exact hdir

end Named

end MakeDirs

section Writing

/-- Whether a path leads to a file at a location. -/
def FileAt (fs : FileSystem) (p : Path) (location : Location) : Prop :=
  ∃ inode mode content, fs.resolve true p = .ok (.file location inode mode content)

theorem FileAt.entry (h : fs.FileAt p location) :
    ∃ inode mode content, fs.entries.get? location = some (.file inode mode content) := by
  obtain ⟨inode, mode, content, hr⟩ := h
  have hshows : fs.Shows (.ok (.file location inode mode content)) := hr ▸ resolve_shows p
  exact ⟨inode, mode, content, hshows⟩

theorem FileAt.getLast? (h : fs.FileAt p location) (hl : fs.Linkless) :
    location.getLast? = p.parts.getLast? := by
  obtain ⟨inode, mode, content, hr⟩ := h
  exact resolve_last hl hr (.inl ⟨inode, mode, content, rfl⟩)

theorem readFile_eq_ok {text : String} : fs.readFile p = .ok text ↔
    ∃ l inode mode, fs.resolve true p = .ok (.file l inode mode text) := by
  unfold readFile
  cases hr : fs.resolve true p with
  | error e => simp [bind, Except.bind]
  | ok halt => cases halt <;> simp [bind, Except.bind]

theorem resolve_congr (h : fs'.entries = fs.entries) (p : Path) :
    fs'.resolve followLast p = fs.resolve followLast p := by
  rw [resolve, walk_congr h, resolve]

theorem fileAt_congr (h : fs'.entries = fs.entries) :
    fs'.FileAt p location ↔ fs.FileAt p location := by
  rw [FileAt, resolve_congr h, FileAt]

theorem readFile_congr (h : fs'.entries = fs.entries) (p : Path) :
    fs'.readFile p = fs.readFile p := by
  rw [readFile, resolve_congr h, readFile]

theorem openLock_of_names {inode : Nat} (h : fs.Names p inode) :
    fs.answer (.openLock p) = (.ok inode, fs) := by
  obtain ⟨l, mode, content, hr⟩ := h
  rw [answer, openFile, hr]
  rfl

theorem resolve_grows (hg : fs.Grows fs') (p : Path) :
    Stays (fs.resolve true p) (fs'.resolve true p) := by
  unfold resolve
  cases checkPath p with
  | error e => trivial
  | ok u => exact walk_grows hg maxLinks [] p.parts

theorem FileAt.grows (h : fs.FileAt p location) (hg : fs.Grows fs') : fs'.FileAt p location := by
  obtain ⟨inode, mode, content, hr⟩ := h
  have hstays := resolve_grows hg p
  rw [hr] at hstays
  obtain ⟨content', hr'⟩ := hstays
  exact ⟨inode, mode, content', hr'⟩

theorem isDirectory_grows (hg : fs.Grows fs') (h : fs.isDirectory p = true) :
    fs'.isDirectory p = true := by
  have hstays := resolve_grows hg p
  unfold isDirectory at h ⊢
  split at h
  · rename_i l heq
    rw [heq] at hstays
    have hresolve : fs'.resolve true p = .ok (.directory l) := hstays
    rw [hresolve]
  · cases h

theorem resolve_file_grows {inode : Nat} {text : String} (hg : fs.Grows fs')
    (hr : fs.resolve true p = .ok (.file location inode mode content))
    (hget : fs'.entries.get? location = some (.file inode mode text)) :
    fs'.resolve true p = .ok (.file location inode mode text) := by
  have hstays := resolve_grows hg p
  rw [hr] at hstays
  obtain ⟨content', hr'⟩ := hstays
  have hshows : fs'.Shows (.ok (.file location inode mode content')) := hr' ▸ resolve_shows p
  have hget' : fs'.entries.get? location = some (.file inode mode content') := hshows
  rw [hget] at hget'
  cases hget'
  exact hr'

theorem writeFile_eq_ok (h : fs.writeFile mode p content = .ok fs') :
    ∃ l inode mode', fs'.entries = fs.entries.insert l (.file inode mode' content) ∧
      fs'.resolve true p = .ok (.file l inode mode' content) ∧ fs.Grows fs' := by
  unfold writeFile at h
  cases hr : fs.resolve true p with
  | error e => simp [hr, bind, Except.bind] at h
  | ok halt =>
    have hshows : fs.Shows (.ok halt) := hr ▸ resolve_shows p
    rw [hr] at h
    cases halt with
    | file l inode m old =>
      obtain rfl := Except.ok.inj h
      have hgrows : fs.Grows (fs.place l (.file inode m content)) := grows_rewrite hshows content
      exact ⟨l, inode, m, rfl,
        resolve_file_grows hgrows hr (Table.get?_insert_self _ _ _), hgrows⟩
    | absent l slash =>
      cases slash with
      | true => cases h
      | false =>
        obtain rfl := Except.ok.inj h
        have hgrows : fs.Grows (fs.placeFile l mode content) := grows_placeFile hshows mode content
        exact ⟨l, fs.nextInode, mode, rfl,
          resolve_filled hgrows hr (Table.get?_insert_self _ _ _), hgrows⟩
    | _ => cases h

/-- What was written can be read. -/
theorem readFile_of_write (h : fs.writeFile mode p content = .ok fs') :
    fs'.readFile p = .ok content := by
  obtain ⟨l, inode, mode', -, hr, -⟩ := writeFile_eq_ok h
  exact readFile_eq_ok.2 ⟨l, inode, mode', hr⟩

theorem linkless_writeFile (hl : fs.Linkless) (h : fs.writeFile mode p content = .ok fs') :
    fs'.Linkless := by
  obtain ⟨l, inode, mode', hentries, -, -⟩ := writeFile_eq_ok h
  exact linkless_of_entries (linkless_place hl (by simp) l) hentries

end Writing

end Relocation.Files.FileSystem
