import Relocation.Proofs.Files.ExportSite

/-!
Clearing an export directory away. What stands below it is listed so that nothing comes before
something below it (`listing_below`); so every step of its removal finds what it takes away, and
all of them together leave the tree without the directory and as it was elsewhere
(`Listing.remove_head`, `Listing.remove_last`). No step of a removal, whoever carries it out and
whenever, spoils the site for another one (`RemovalSite.answer`).
-/

set_option autoImplicit false

namespace Relocation

namespace Files.FileSystem

variable {fs fs' fs'' : FileSystem} {d l : Location}

/-- The tree without a location and all that stands below it. -/
def without (fs : FileSystem) (d : Location) : FileSystem :=
  { fs with entries := fs.entries.filter fun l _ => !d.isPrefixOf l }

theorem get?_without (fs : FileSystem) (d l : Location) :
    (fs.without d).entries.get? l = if d <+: l then none else fs.entries.get? l := by
  rw [without, Table.get?_filter]
  by_cases h : d <+: l
  · have hbelow : d.isPrefixOf l = true := List.isPrefixOf_iff_prefix.2 h
    rw [if_pos h]
    cases fs.entries.get? l <;> simp [hbelow]
  · have hbeside : d.isPrefixOf l = false := by simpa [← List.isPrefixOf_iff_prefix] using h
    rw [if_neg h]
    cases fs.entries.get? l <;> simp [hbeside]

private theorem eq_without
    (h : ∀ l, fs'.entries.get? l = if d <+: l then none else fs.entries.get? l)
    (hnext : fs'.nextInode = fs.nextInode) (hheld : fs'.held = fs.held) : fs' = fs.without d := by
  have hentries : fs'.entries = (fs.without d).entries :=
    Table.ext_get? fun l => (h l).trans (get?_without fs d l).symm
  obtain ⟨entries, nextInode, held⟩ := fs'
  obtain rfl : entries = _ := hentries
  obtain rfl : nextInode = _ := hnext
  obtain rfl : held = _ := hheld
  rfl

theorem without_erase (h : d <+: l) :
    without { fs with entries := fs.entries.erase l } d = fs.without d := by
  refine eq_without (fun l' => ?_) rfl rfl
  rw [get?_without]
  split
  · rfl
  · rename_i hl'
    have hne : l' ≠ l := fun heq => hl' (heq ▸ h)
    exact Table.get?_erase_of_ne _ hne

/-- Two trees agree on everything but a location and what stands below it. -/
def SameBeside (d : Location) (fs fs' : FileSystem) : Prop :=
  ∀ l, ¬d <+: l → fs'.entries.get? l = fs.entries.get? l

theorem SameBeside.refl (d : Location) (fs : FileSystem) : SameBeside d fs fs := fun _ _ => rfl

theorem SameBeside.trans (h : SameBeside d fs fs') (h' : SameBeside d fs' fs'') :
    SameBeside d fs fs'' := fun l hl => (h' l hl).trans (h l hl)

theorem sameBeside_erase (h : d <+: l) :
    SameBeside d fs { fs with entries := fs.entries.erase l } := by
  intro l' hl'
  have hne : l' ≠ l := fun heq => hl' (heq ▸ h)
  exact Table.get?_erase_of_ne _ hne

theorem sameBeside_place (h : d <+: l) (entry : Entry) : SameBeside d fs (fs.place l entry) := by
  intro l' hl'
  have hne : l' ≠ l := fun heq => hl' (heq ▸ h)
  exact Table.get?_insert_of_ne _ _ hne

theorem without_beside (h : SameBeside d fs fs') :
    (fs'.without d).entries = (fs.without d).entries := by
  refine Table.ext_get? fun l => ?_
  rw [get?_without, get?_without]
  split
  · rfl
  · rename_i hl
    exact h l hl

section Listing

/-- All that stands below a directory, and nothing before something that stands below it. -/
structure Listing (fs : FileSystem) (d : Location) (list : List (Location × Entry)) : Prop where
  stands : ∀ e ∈ list, fs.entries.get? e.1 = some e.2 ∧ d <+: e.1 ∧ e.1 ≠ d
  complete : ∀ l, d <+: l → l ≠ d → l ∉ list.map Prod.fst → fs.entries.get? l = none
  deeper : list.Pairwise fun a b => ¬a.1 <+: b.1

private theorem not_gt_of_initial {xs ys : List String} (h : xs <+: ys) : compare xs ys ≠ .gt := by
  induction xs generalizing ys with
  | nil => cases ys <;> exact nofun
  | cons x xs ih =>
    obtain ⟨rest, rfl⟩ := h
    have hrest : compare xs (xs ++ rest) ≠ .gt := ih (List.prefix_append xs rest)
    have hcons : compare (x :: xs) (x :: (xs ++ rest)) =
        (compare x x).then (compare xs (xs ++ rest)) := List.compareLex_cons_cons
    have hsame : compare x x = .eq := Std.ReflCmp.compare_self
    rw [List.cons_append, hcons, hsame]
    exact hrest

theorem listing_below (fs : FileSystem) (d : Location) : fs.Listing d (fs.below d) where
  stands _ := mem_below.1
  complete l hl hne hnot := by
    cases hget : fs.entries.get? l with
    | none => rfl
    | some entry =>
      have hmem : (l, entry) ∈ fs.below d := mem_below.2 ⟨hget, hl, hne⟩
      exact absurd (List.mem_map_of_mem hmem) hnot
  deeper := by
    rw [below, List.pairwise_reverse]
    refine List.Pairwise.filter _ (fs.entries.ascending.imp fun {a b} hlt hbelow => ?_)
    exact not_gt_of_initial hbelow (Std.OrientedCmp.gt_of_lt hlt)

variable {e : Location × Entry} {rest : List (Location × Entry)}

/-- What is listed first can be taken away, and what is left is still listed. -/
theorem Listing.remove_head (h : fs.Listing d (e :: rest)) :
    fs.remove (removalOf e) = .ok { fs with entries := fs.entries.erase e.1 } ∧
      Listing { fs with entries := fs.entries.erase e.1 } d rest := by
  obtain ⟨l, entry⟩ := e
  obtain ⟨hget, hl, hne⟩ := h.stands (l, entry) List.mem_cons_self
  obtain ⟨hfirst, hlater⟩ := List.pairwise_cons.1 h.deeper
  have hother (l' : Location) (hl' : l' ≠ l) :
      (fs.entries.erase l).get? l' = fs.entries.get? l' := Table.get?_erase_of_ne _ hl'
  refine ⟨?_, ?_, ?_, hlater⟩
  · cases entry with
    | file inode mode content =>
      rw [removalOf, remove, unlink, hget]
      rintro _ ⟨⟩
    | link target =>
      rw [removalOf, remove, unlink, hget]
      rintro _ ⟨⟩
    | directory mode =>
      -- Whatever stands below it is listed, but not after it.
      have hempty : fs.hasBelow l = false := by
        refine hasBelow_eq_false.2 fun l' hl' hne' => h.complete l' (hl.trans hl') ?_ ?_
        · rintro rfl
          exact hne (hl.eq_of_length (Nat.le_antisymm hl.length_le hl'.length_le)).symm
        · intro hmem
          obtain ⟨e', he', rfl⟩ := List.mem_map.1 hmem
          rcases List.mem_cons.1 he' with rfl | he'
          · exact hne' rfl
          · exact hfirst e' he' hl'
      simp only [removalOf, remove, removeDir, hget, hempty]
      rfl
  · intro e' he'
    have hne' : e'.1 ≠ l := fun heq => hfirst e' he' (heq ▸ List.prefix_refl _)
    obtain ⟨hget', hbelow⟩ := h.stands e' (List.mem_cons_of_mem _ he')
    exact ⟨(hother _ hne').trans hget', hbelow⟩
  · intro l' hl' hd hnot
    by_cases heq : l' = l
    · rw [heq]
      exact Table.get?_erase_self _ _
    · refine (hother l' heq).trans (h.complete l' hl' hd ?_)
      rw [List.map_cons, List.mem_cons, not_or]
      exact ⟨heq, hnot⟩

/-- A directory below which nothing is left can be taken away. -/
theorem Listing.remove_last (h : fs.Listing d []) (hdir : fs.HasDir d) :
    fs.removeDir d = .ok (fs.without d) := by
  obtain ⟨mode, hget⟩ := hdir
  have hnothing : ∀ l, d <+: l → l ≠ d → fs.entries.get? l = none := fun l hl hne =>
    h.complete l hl hne List.not_mem_nil
  have hempty : fs.hasBelow d = false := hasBelow_eq_false.2 hnothing
  have herased : { fs with entries := fs.entries.erase d } = fs.without d := by
    refine eq_without (fun l => ?_) rfl rfl
    by_cases hl : l = d
    · rw [hl, if_pos (List.prefix_refl d)]
      exact Table.get?_erase_self _ _
    · refine (Table.get?_erase_of_ne _ hl).trans ?_
      split
      · rename_i hbelow
        exact hnothing l hbelow hl
      · rfl
  rw [← herased, removeDir, hget]
  simp only [hempty]
  rfl

end Listing

end Files.FileSystem

open Files Files.FileSystem

section Sites

variable (dataDir : Path) (k : ObjectKey)

def exportPlace : Location := lexical [] dataDir.stem ++ k.place

/-- Whether the paths of a removal can be asked for, and the way to the data directory does not go
through the export directory. -/
structure RemovalPaths : Prop where
  key : k.Placeable
  short : ∀ s ∈ dataDir.parts ++ [k.space, k.name], Text.byteCount s.toList ≤ maxName
  lockPath : checkPath ((exportDirs dataDir k).lock.join lockFileName) = .ok ()
  apart : ∀ l ∈ stations [] dataDir.stem, ¬exportPlace dataDir k <+: l

/-- Whether an export can be removed from a tree: nothing but directories stands on the way to its
directory, which is there with all of them or not at all, and its lock file is a file if it is
there. -/
structure RemovalSite (fs : FileSystem) : Prop extends RemovalPaths dataDir k where
  directories : ∀ l ∈ stations [] (dataDir.stem ++ k.place),
    fs.entries.get? l = none ∨ fs.HasDir l
  whole : fs.Built [] (dataDir.stem ++ k.place) ∨
    ∀ l, exportPlace dataDir k <+: l → fs.entries.get? l = none
  lockFile : fs.entries.get? (lockPlace dataDir k) = none ∨
    ∃ inode mode content, fs.entries.get? (lockPlace dataDir k) = some (.file inode mode content)

/-- The file operations of a removal. -/
inductive Clears : FileCall → Prop
  | stat : Clears (.stat (exportDirs dataDir k).lock)
  | openLock : Clears (.openLock ((exportDirs dataDir k).lock.join lockFileName))
  | tryLock (inode : Nat) : Clears (.tryLock inode)
  | release (inode : Nat) : Clears (.release inode)
  | plan : Clears (.planRemoval (exportDirs dataDir k).lock)
  | inside {e : Location × Entry} : exportPlace dataDir k <+: e.1 → e.1 ≠ exportPlace dataDir k →
      Clears (.remove (removalOf e))
  | last : Clears (.remove (.removeDirPath (exportDirs dataDir k).lock))

end Sites

section Site

variable {dataDir : Path} {k : ObjectKey} {fs fs' : FileSystem} {l : Location}

theorem exportPlace_eq (dataDir : Path) (hk : k.Placeable) :
    lexical [] (dataDir.stem ++ k.place) = exportPlace dataDir k := by
  rw [lexical_append, lexical_names (pathNames_of_placeable hk), exportPlace]

theorem lockDir_parts (dataDir : Path) (hk : k.Placeable) :
    (exportDirs dataDir k).lock = ⟨dataDir.absolute, dataDir.stem ++ k.place⟩ := by
  rw [lockDir_under, Path.under_eq _ (by simp [ObjectKey.place]) (pathNames_of_placeable hk)]

theorem lockPlace_below : exportPlace dataDir k <+: lockPlace dataDir k := by
  rw [lockPlace, ← List.append_assoc]
  exact List.prefix_append _ _

theorem lockPlace_ne_exportPlace : lockPlace dataDir k ≠ exportPlace dataDir k := by
  intro heq
  have hlength := congrArg List.length heq
  simp [lockPlace, exportPlace] at hlength

theorem exportPlace_apart (hup : ".." ∉ dataDir.parts) :
    ∀ l ∈ stations [] dataDir.stem, ¬exportPlace dataDir k <+: l := by
  intro l hl hbelow
  have habove := stations_prefix (fun h => hup (mem_stem h)) hl
  have hlength := Nat.le_trans hbelow.length_le habove.length_le
  simp only [exportPlace, ObjectKey.place, List.length_append, List.length_cons] at hlength
  omega

theorem place_named (dataDir : Path) (k : ObjectKey) :
    dataDir.stem ++ k.place = (dataDir.stem ++ ["namespaces", k.space]) ++ [k.name] := by
  simp [ObjectKey.place]

section Paths

variable (h : RemovalPaths dataDir k)

include h

theorem RemovalPaths.short_place :
    ∀ s ∈ dataDir.stem ++ k.place, Text.byteCount s.toList ≤ maxName := by
  intro s hs
  simp only [ObjectKey.place, List.mem_append, List.mem_cons, List.not_mem_nil, or_false] at hs
  rcases hs with hs | rfl | rfl | rfl
  · exact h.short s (List.mem_append_left _ (mem_stem hs))
  · decide
  · exact h.short _ (by simp)
  · exact h.short _ (by simp)

theorem RemovalPaths.dirPath : checkPath (exportDirs dataDir k).lock = .ok () := by
  have hp := h.lockPath
  rw [lockPath_under, Path.under_eq _ (by simp) (pathNames_place h.key pathNames_lock),
    ← List.append_assoc] at hp
  rw [lockDir_parts _ h.key]
  refine checkPath_prefix hp ?_
  rw [place_named]
  exact text_ne_empty _ h.key.2.not_idle

theorem RemovalPaths.station (hl : l ∈ stations [] (dataDir.stem ++ k.place))
    (hbelow : exportPlace dataDir k <+: l) : l = exportPlace dataDir k := by
  rw [stations_append, List.mem_append] at hl
  rcases hl with hl | hl
  · exact absurd hbelow (h.apart l hl)
  · have hup : ".." ∉ k.place := fun hmem => (pathNames_of_placeable h.key _ hmem).ne_dotdot rfl
    have habove := stations_prefix hup hl
    rw [lexical_names (pathNames_of_placeable h.key)] at habove
    exact habove.eq_of_length (Nat.le_antisymm habove.length_le hbelow.length_le)

end Paths

theorem RemovalSite.of_entries (h : RemovalSite dataDir k fs) (heq : fs'.entries = fs.entries) :
    RemovalSite dataDir k fs' where
  toRemovalPaths := h.toRemovalPaths
  directories := by
    unfold HasDir
    rw [heq]
    exact h.directories
  whole := by
    unfold Built HasDir
    rw [heq]
    exact h.whole
  lockFile := by
    rw [heq]
    exact h.lockFile

variable (h : RemovalSite dataDir k fs)

include h

theorem RemovalSite.buildable : fs.Buildable [] (dataDir.stem ++ k.place) :=
  ⟨h.toRemovalPaths.short_place, h.directories⟩

theorem RemovalSite.resolve_dir {followLast : Bool}
    (hbuilt : fs.Built [] (dataDir.stem ++ k.place)) :
    fs.resolve followLast (exportDirs dataDir k).lock =
      .ok (.directory (exportPlace dataDir k)) := by
  have hparts := lockDir_parts dataDir h.key
  rw [resolve_built h.toRemovalPaths.dirPath (by rw [hparts]; exact h.toRemovalPaths.short_place)
    (by rw [hparts]; exact hbuilt), hparts, exportPlace_eq _ h.key]

theorem RemovalSite.missing_dir {followLast : Bool}
    (hbuilt : ¬fs.Built [] (dataDir.stem ++ k.place)) :
    Missing (fs.resolve followLast (exportDirs dataDir k).lock) := by
  have hparts := lockDir_parts dataDir h.key
  exact resolve_unbuilt h.toRemovalPaths.dirPath (by rw [hparts]; exact h.buildable)
    (by rw [hparts]; exact hbuilt)

theorem RemovalSite.stat_dir (hbuilt : fs.Built [] (dataDir.stem ++ k.place)) :
    fs.stat (exportDirs dataDir k).lock = .ok () := by
  rw [stat, h.resolve_dir hbuilt]
  rfl

theorem RemovalSite.stat_gone (hbuilt : ¬fs.Built [] (dataDir.stem ++ k.place)) :
    fs.stat (exportDirs dataDir k).lock = .error .notFound := by
  have hmissing : Missing (fs.resolve true (exportDirs dataDir k).lock) := h.missing_dir hbuilt
  rw [stat]
  rcases missing_cases hmissing with hr | ⟨l, slash, hr⟩ <;> rw [hr] <;> rfl

private theorem RemovalSite.erase (hl : exportPlace dataDir k <+: l)
    (hempty : l = exportPlace dataDir k → fs.hasBelow l = false) :
    RemovalSite dataDir k { fs with entries := fs.entries.erase l } := by
  have hget (l' : Location) : (fs.entries.erase l).get? l' = none ∨
      (fs.entries.erase l).get? l' = fs.entries.get? l' := by
    by_cases hl' : l' = l
    · exact .inl (by rw [hl', Table.get?_erase_self])
    · exact .inr (Table.get?_erase_of_ne _ hl')
  refine ⟨h.toRemovalPaths, fun l' hl' => ?_, ?_, ?_⟩
  · rcases hget l' with hnone | hsame
    · exact .inl hnone
    · unfold HasDir
      rw [hsame]
      exact h.directories l' hl'
  · rcases h.whole with hbuilt | hgone
    · by_cases heq : l = exportPlace dataDir k
      · refine .inr fun l' hl' => ?_
        by_cases hl'' : l' = l
        · rw [hl'', Table.get?_erase_self]
        · rw [Table.get?_erase_of_ne _ hl'']
          exact hasBelow_eq_false.1 (hempty heq) l' (heq ▸ hl') hl''
      · refine .inl fun l' hl' => ?_
        have hne : l' ≠ l := fun heq' => heq (h.toRemovalPaths.station (heq' ▸ hl') hl)
        unfold HasDir
        rw [Table.get?_erase_of_ne _ hne]
        exact hbuilt l' hl'
    · refine .inr fun l' hl' => ?_
      rcases hget l' with hnone | hsame
      · exact hnone
      · exact hsame.trans (hgone l' hl')
  · rcases hget (lockPlace dataDir k) with hnone | hsame
    · exact .inl hnone
    · rw [hsame]
      exact h.lockFile

theorem RemovalSite.hasDir_built (hbuilt : fs.Built [] (dataDir.stem ++ k.place)) :
    fs.HasDir (exportPlace dataDir k) := by
  have hplace := exportPlace_eq dataDir h.key
  rw [place_named, lexical_append, lexical_name h.key.2.not_idle h.key.2.ne_dotdot] at hplace
  rw [place_named, built_concat h.key.2.not_idle h.key.2.ne_dotdot] at hbuilt
  rw [← hplace]
  exact hbuilt.2

private theorem RemovalSite.built_place {entry : Entry}
    (hbuilt : fs.Built [] (dataDir.stem ++ k.place)) :
    (fs.place (lockPlace dataDir k) entry).Built [] (dataDir.stem ++ k.place) := by
  intro l hl
  have hne : l ≠ lockPlace dataDir k := by
    rintro rfl
    exact lockPlace_ne_exportPlace (h.toRemovalPaths.station hl lockPlace_below)
  obtain ⟨mode, hget⟩ := hbuilt l hl
  exact ⟨mode, (Table.get?_insert_of_ne _ _ hne).trans hget⟩

theorem RemovalSite.without : RemovalSite dataDir k (fs.without (exportPlace dataDir k)) where
  toRemovalPaths := h.toRemovalPaths
  directories l hl := by
    unfold HasDir
    rw [get?_without]
    split
    · exact .inl rfl
    · exact h.directories l hl
  whole := .inr fun l hl => by rw [get?_without, if_pos hl]
  lockFile := .inl (by rw [get?_without, if_pos lockPlace_below])

theorem RemovalSite.openLock_built (hbuilt : fs.Built [] (dataDir.stem ++ k.place)) :
    ∃ inode fs',
      fs.answer (.openLock ((exportDirs dataDir k).lock.join lockFileName)) = (.ok inode, fs') ∧
        fs'.Built [] (dataDir.stem ++ k.place) ∧ RemovalSite dataDir k fs' ∧
        SameBeside (exportPlace dataDir k) fs fs' ∧
        (Unlocked dataDir k fs → inode ∉ fs'.held) := by
  have hparts := lockPath_parts dataDir h.key
  have hplace := lockPlace_eq dataDir h.key
  rcases h.lockFile with hnone | ⟨inode, mode, content, hfile⟩
  · have hbuilt' : (fs.placeFile (lockPlace dataDir k) lockFileMode "").Built []
        (dataDir.stem ++ k.place) := h.built_place hbuilt
    refine ⟨fs.nextInode, fs.placeFile (lockPlace dataDir k) lockFileMode "", ?_, hbuilt', ?_, ?_,
      Unlocked.next⟩
    · rw [hplace] at hnone ⊢
      rw [answer, openFile,
        resolve_named_none h.lockPath hparts plain_lockFileName h.buildable hbuilt hnone]
      rfl
    · refine ⟨h.toRemovalPaths, fun l hl => .inr (hbuilt' l hl), .inl hbuilt', .inr ?_⟩
      exact ⟨_, _, _, Table.get?_insert_self _ _ _⟩
    · exact sameBeside_place lockPlace_below _
  · refine ⟨inode, fs, ?_, hbuilt, h, .refl _ _, fun hfree => hfree.file _ _ _ hfile⟩
    rw [hplace] at hfile
    rw [answer, openFile,
      resolve_named_file h.lockPath hparts plain_lockFileName h.buildable hbuilt hfile]
    rfl

theorem RemovalSite.openLock_gone (hbuilt : ¬fs.Built [] (dataDir.stem ++ k.place)) :
    fs.answer (.openLock ((exportDirs dataDir k).lock.join lockFileName)) =
      (.error .notFound, fs) := by
  rw [answer, openFile, resolve_named_unbuilt h.lockPath (lockPath_parts dataDir h.key)
    plain_lockFileName h.buildable hbuilt]
  rfl

private theorem RemovalSite.resolveName_dir :
    endsInName (exportDirs dataDir k).lock = true ∧
      fs.resolveName (exportDirs dataDir k).lock =
        fs.resolve false (exportDirs dataDir k).lock := by
  have hparts : (exportDirs dataDir k).lock.parts =
      (dataDir.stem ++ ["namespaces", k.space]) ++ [k.name] := by
    rw [lockDir_parts _ h.key, ← place_named]
  exact named_concat hparts h.key.2.not_idle h.key.2.ne_dotdot

theorem RemovalSite.removeDirPath_built (hbuilt : fs.Built [] (dataDir.stem ++ k.place)) :
    fs.remove (.removeDirPath (exportDirs dataDir k).lock) =
      fs.removeDir (exportPlace dataDir k) := by
  obtain ⟨hends, hname⟩ := h.resolveName_dir
  simp only [remove, hends, if_true, hname]
  rw [h.resolve_dir hbuilt]
  rfl

theorem RemovalSite.removeDirPath_gone (hbuilt : ¬fs.Built [] (dataDir.stem ++ k.place)) :
    fs.remove (.removeDirPath (exportDirs dataDir k).lock) = .error .notFound := by
  obtain ⟨hends, hname⟩ := h.resolveName_dir
  have hmissing : Missing (fs.resolve false (exportDirs dataDir k).lock) := h.missing_dir hbuilt
  simp only [remove, hends, if_true, hname]
  rcases missing_cases hmissing with hr | ⟨l, slash, hr⟩ <;> rw [hr] <;> rfl

/-- Whatever a removal does to the files leaves a site for it, and the tree elsewhere as it was. -/
theorem RemovalSite.answer {call : FileCall} (hcall : Clears dataDir k call) :
    RemovalSite dataDir k (fs.answer call).2 ∧
      SameBeside (exportPlace dataDir k) fs (fs.answer call).2 := by
  have herase {l : Location} {r : Except IoError FileSystem} (hl : exportPlace dataDir k <+: l)
      (hr : ∀ fs', r = .ok fs' → fs' = { fs with entries := fs.entries.erase l } ∧
        (l = exportPlace dataDir k → fs.hasBelow l = false)) :
      RemovalSite dataDir k (fs.commit r).2 ∧
        SameBeside (exportPlace dataDir k) fs (fs.commit r).2 := by
    cases r with
    | error e => exact ⟨h, .refl _ _⟩
    | ok fs' =>
      obtain ⟨rfl, hempty⟩ := hr fs' rfl
      exact ⟨h.erase hl hempty, sameBeside_erase hl⟩
  cases hcall with
  | stat => exact ⟨h, .refl _ _⟩
  | openLock =>
    by_cases hbuilt : fs.Built [] (dataDir.stem ++ k.place)
    · obtain ⟨inode, fs', hopen, -, hsite, hbeside, -⟩ := h.openLock_built hbuilt
      rw [hopen]
      exact ⟨hsite, hbeside⟩
    · rw [h.openLock_gone hbuilt]
      exact ⟨h, .refl _ _⟩
  | tryLock inode =>
    have heq : (fs.answer (.tryLock inode)).2.entries = fs.entries := by
      simp only [FileSystem.answer, tryLock]
      split <;> rfl
    exact ⟨h.of_entries heq, fun l _ => by rw [heq]⟩
  | release inode => exact ⟨h.of_entries rfl, .refl _ _⟩
  | plan => exact ⟨h, .refl _ _⟩
  | @inside e hbelow hne =>
    refine herase hbelow fun fs' hok => ⟨?_, fun heq => absurd heq hne⟩
    obtain ⟨l, entry⟩ := e
    cases entry with
    | directory mode => exact removeDir_ok hok
    | file inode mode content => exact unlink_ok hok
    | link target => exact unlink_ok hok
  | last =>
    refine herase (List.prefix_refl _) fun fs' hok => ?_
    by_cases hbuilt : fs.Built [] (dataDir.stem ++ k.place)
    · rw [h.removeDirPath_built hbuilt] at hok
      refine ⟨removeDir_ok hok, fun _ => ?_⟩
      unfold removeDir at hok
      split at hok
      · cases hok
      · split at hok
        · cases hok
        · rename_i hempty
          simpa using hempty
      · cases hok
    · rw [h.removeDirPath_gone hbuilt] at hok
      cases hok

theorem RemovalSite.plan_built (hbuilt : fs.Built [] (dataDir.stem ++ k.place)) :
    fs.planRemoval (exportDirs dataDir k).lock =
      .ok ((fs.below (exportPlace dataDir k)).map removalOf ++
        [.removeDirPath (exportDirs dataDir k).lock]) := by
  rw [planRemoval, h.resolve_dir hbuilt]
  rfl

theorem RemovalSite.plan_gone (hbuilt : ¬fs.Built [] (dataDir.stem ++ k.place)) :
    fs.planRemoval (exportDirs dataDir k).lock = .error .notFound := by
  have hmissing : Missing (fs.resolve false (exportDirs dataDir k).lock) := h.missing_dir hbuilt
  rw [planRemoval]
  rcases missing_cases hmissing with hr | ⟨l, slash, hr⟩ <;> rw [hr] <;> rfl

/-- Whatever stood in the directory when the removal was planned, its steps clear. -/
theorem RemovalSite.clears_of_plan {steps : List Removal}
    (hplan : fs.planRemoval (exportDirs dataDir k).lock = .ok steps) :
    ∀ step ∈ steps, Clears dataDir k (.remove step) := by
  by_cases hbuilt : fs.Built [] (dataDir.stem ++ k.place)
  · obtain rfl := Except.ok.inj ((h.plan_built hbuilt).symm.trans hplan)
    intro step hstep
    rcases List.mem_append.1 hstep with hinside | hlast
    · obtain ⟨e, he, rfl⟩ := List.mem_map.1 hinside
      obtain ⟨-, hbelow, hne⟩ := mem_below.1 he
      exact .inside hbelow hne
    · obtain rfl := List.mem_singleton.1 hlast
      exact .last
  · rw [h.plan_gone hbuilt] at hplan
    cases hplan

end Site

end Relocation
