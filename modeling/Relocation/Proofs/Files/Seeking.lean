import Relocation.Proofs.Files.Confined
import Relocation.Proofs.Files.Grounds

/-!
Where paths lead in a tree (`seek_blocked`, `seek_lost`, `seek_absent`, `seek_file`,
`seek_directory`), and in two trees where the same stands at the end of the way, but for the numbers
of new files (`finds_resolve`).
-/

set_option autoImplicit false

namespace Relocation

namespace Files.FileSystem

section Seek

variable {fs : FileSystem} {followLast : Bool} {here l : Location} {front rest : List String}
  {last : String} {p : Path}

def HasFile (fs : FileSystem) (l : Location) : Prop :=
  ∃ inode mode content, fs.entries.get? l = some (.file inode mode content)

/-- Whether a file is in the way along some parts. -/
def Blocked (fs : FileSystem) (here : Location) (parts : List String) : Prop :=
  ∃ l ∈ stations here parts, fs.HasFile l

theorem HasFile.not_hasDir (h : fs.HasFile l) : ¬fs.HasDir l := by
  obtain ⟨inode, mode, content, hfile⟩ := h
  rintro ⟨mode', hdir⟩
  cases hfile.symm.trans hdir

theorem HasFile.stands (h : fs.HasFile l) : fs.entries.get? l ≠ none := by
  obtain ⟨inode, mode, content, hfile⟩ := h
  simp [hfile]

private theorem station_below {parts : List String} (hup : ".." ∉ parts)
    (hl : l ∈ stations here parts) : here <+: l ∧ l ≠ [] := by
  induction parts generalizing here with
  | nil => cases hl
  | cons s rest ih =>
    have hrest : ".." ∉ rest := fun h => hup (List.mem_cons_of_mem s h)
    by_cases hidle : Idle s
    · exact ih hrest (by rwa [stations_idle hidle] at hl)
    · have hne : s ≠ ".." := fun heq => hup (heq ▸ List.mem_cons_self)
      rw [stations_name hidle hne, List.mem_cons] at hl
      rcases hl with rfl | hl
      · exact ⟨List.prefix_append here [s], by simp⟩
      · exact ⟨(List.prefix_append here [s]).trans (ih hrest hl).1, (ih hrest hl).2⟩

theorem advance_blocked (h : fs.IsTree) (hshort : ∀ s ∈ front, Text.byteCount s.toList ≤ maxName)
    (hup : ".." ∉ front) (hb : fs.Blocked here front) (hrest : rest ≠ []) :
    fs.advance followLast here (front ++ rest) = .error .notDirectory := by
  induction front generalizing here with
  | nil => simp [Blocked, stations] at hb
  | cons s front ih =>
    have hup' : ".." ∉ front := fun h => hup (List.mem_cons_of_mem s h)
    have ih {here : Location} (hb : fs.Blocked here front) :
        fs.advance followLast here (front ++ rest) = .error .notDirectory :=
      ih (fun t ht => hshort t (List.mem_cons_of_mem s ht)) hup' hb
    rw [List.cons_append]
    rcases part_cases s with idle | rfl | overlong | plain
    · rw [advance_idle idle]
      exact ih (by rwa [Blocked, stations_idle idle] at hb)
    · exact absurd List.mem_cons_self hup
    · exact absurd (hshort s List.mem_cons_self) (Nat.not_le.2 overlong.long)
    · rw [Blocked, stations_name plain.not_idle plain.ne_dotdot] at hb
      obtain ⟨l, hl, hfile⟩ := hb
      -- The file is the next station, or it stands below it, which is then a directory.
      have hnext : l = here ++ [s] ∨
          l ∈ stations (here ++ [s]) front ∧ fs.HasDir (here ++ [s]) := by
        rcases List.mem_cons.1 hl with rfl | hl
        · exact .inl rfl
        · by_cases heq : l = here ++ [s]
          · exact .inl heq
          · exact .inr ⟨hl, h.above hfile.stands (station_below hup' hl).1 (Ne.symm heq) (by simp)⟩
      rcases hnext with rfl | ⟨hl, mode, hdir⟩
      · obtain ⟨inode, mode, content, hget⟩ := hfile
        rw [advance_file plain hget, if_neg (by simp [hrest])]
      · rw [advance_directory plain hdir]
        exact ih ⟨l, hl, hfile⟩

theorem built_of_enters (h : fs.IsTree) (hup : ".." ∉ front)
    (henters : fs.Enters (lexical [] front)) : fs.Built [] front := by
  intro l hl
  have hbelow := stations_prefix hup hl
  have hne : l ≠ [] := (station_below hup hl).2
  rcases henters with hnil | ⟨mode, hdir⟩
  · exact absurd (List.prefix_nil.1 (hnil ▸ hbelow)) hne
  · by_cases heq : l = lexical [] front
    · exact ⟨mode, heq ▸ hdir⟩
    · exact h.above (by simp [hdir]) hbelow heq hne

theorem buildable_of_not_blocked (h : fs.IsTree)
    (hshort : ∀ s ∈ front, Text.byteCount s.toList ≤ maxName) (hb : ¬fs.Blocked [] front) :
    fs.Buildable [] front where
  short := hshort
  clear l hl := by
    cases hget : fs.entries.get? l with
    | none => exact .inl rfl
    | some entry =>
      cases entry with
      | file inode mode content => exact absurd ⟨l, hl, inode, mode, content, hget⟩ hb
      | directory mode => exact .inr ⟨mode, hget⟩
      | link target => exact absurd hget (h.linkless l target)

theorem built_iff_hasDir (h : fs.IsTree) (hup : ".." ∉ front)
    (hstation : lexical [] front ∈ stations [] front) :
    fs.Built [] front ↔ fs.HasDir (lexical [] front) :=
  ⟨fun hbuilt => hbuilt _ hstation, fun hdir => built_of_enters h hup (.inr hdir)⟩

theorem not_blocked_of_built (h : fs.Built [] front) : ¬fs.Blocked [] front :=
  fun ⟨l, hl, hfile⟩ => hfile.not_hasDir (h l hl)

private theorem built_of_stands (h : fs.IsTree) (hup : ".." ∉ front)
    (hl : fs.entries.get? (lexical [] front ++ [last]) ≠ none) : fs.Built [] front := by
  have henters := h.enters_parent hl
  rw [List.dropLast_concat] at henters
  exact built_of_enters h hup henters

/-- A path that goes along names which are short enough, and never leads up. -/
structure Along (p : Path) (front : List String) (last : String) : Prop where
  parts : p.parts = front ++ [last]
  last : Plain last
  short : ∀ s ∈ front, Text.byteCount s.toList ≤ maxName
  noUp : ".." ∉ front

variable (h : fs.IsTree) (ha : Along p front last) (hp : checkPath p = .ok ())

include h ha hp

theorem seek_blocked (hb : fs.Blocked [] front) :
    fs.resolve followLast p = .error .notDirectory := by
  rw [resolve_linkless h.linkless, hp, ha.parts]
  exact advance_blocked h ha.short ha.noUp hb (List.cons_ne_nil last [])

theorem seek_lost (hb : ¬fs.Blocked [] front) (hbuilt : ¬fs.Built [] front) :
    fs.resolve followLast p = .error .notFound :=
  resolve_named_unbuilt hp ha.parts ha.last (buildable_of_not_blocked h ha.short hb) hbuilt

theorem seek_absent (hbuilt : fs.Built [] front)
    (hnone : fs.entries.get? (lexical [] front ++ [last]) = none) :
    fs.resolve followLast p = .ok (.absent (lexical [] front ++ [last]) false) :=
  resolve_named_none hp ha.parts ha.last
    (buildable_of_not_blocked h ha.short (not_blocked_of_built hbuilt)) hbuilt hnone

theorem seek_file {inode mode : Nat} {content : String}
    (hfile : fs.entries.get? (lexical [] front ++ [last]) = some (.file inode mode content)) :
    fs.resolve followLast p = .ok (.file (lexical [] front ++ [last]) inode mode content) := by
  have hstands : fs.entries.get? (lexical [] front ++ [last]) ≠ none := by simp [hfile]
  have hbuilt := built_of_stands h ha.noUp hstands
  exact resolve_named_file hp ha.parts ha.last
    (buildable_of_not_blocked h ha.short (not_blocked_of_built hbuilt)) hbuilt hfile

theorem seek_directory (hdir : fs.HasDir (lexical [] front ++ [last])) :
    fs.resolve followLast p = .ok (.directory (lexical [] front ++ [last])) := by
  have hstands : fs.entries.get? (lexical [] front ++ [last]) ≠ none := by
    obtain ⟨mode, hget⟩ := hdir
    simp [hget]
  have hbuilt : fs.Built [] p.parts := by
    rw [ha.parts]
    exact (built_concat ha.last.not_idle ha.last.ne_dotdot).2
      ⟨built_of_stands h ha.noUp hstands, hdir⟩
  have hshort : ∀ s ∈ p.parts, Text.byteCount s.toList ≤ maxName := by
    intro s hs
    rw [ha.parts, List.mem_append, List.mem_singleton] at hs
    rcases hs with hs | rfl
    · exact ha.short s hs
    · exact ha.last.short
  rw [resolve_built hp hshort hbuilt, ha.parts, lexical_append,
    lexical_name ha.last.not_idle ha.last.ne_dotdot]
  rfl

end Seek

section Alike

variable {n : Nat}

/-- Whether two numbers of files are the same, or both of files made since. -/
def SameInode (n i i' : Nat) : Prop := i = i' ∨ n ≤ i ∧ n ≤ i'

/-- Whether the same stands in two places, but for the numbers of new files. -/
inductive SameEntry (n : Nat) : Option Entry → Option Entry → Prop
  | none : SameEntry n .none .none
  | directory (mode : Nat) : SameEntry n (some (.directory mode)) (some (.directory mode))
  | file {i i' : Nat} (mode : Nat) (content : String) : SameInode n i i' →
      SameEntry n (some (.file i mode content)) (some (.file i' mode content))

theorem sameEntry_of_eq {o o' : Option Entry} (hlink : ∀ target, o ≠ some (.link target))
    (h : o' = o) : SameEntry n o o' := by
  subst h
  cases o' with
  | none => exact .none
  | some entry =>
    cases entry with
    | file inode mode content => exact .file mode content (.inl rfl)
    | directory mode => exact .directory mode
    | link target => exact absurd rfl (hlink target)

theorem SameEntry.look {o o' : Option Entry} (h : SameEntry n o o') :
    o.map Entry.look = o'.map Entry.look := by
  cases h <;> rfl

theorem SameEntry.removal {o o' : Option Entry} (h : SameEntry n o o') (l : Location) :
    o.map (fun e => removalOf (l, e)) = o'.map fun e => removalOf (l, e) := by
  cases h <;> rfl

variable {fs fs' : FileSystem} {d l : Location}

theorem SameEntry.hasDir_iff (h : SameEntry n (fs.entries.get? l) (fs'.entries.get? l)) :
    fs.HasDir l ↔ fs'.HasDir l := by
  unfold HasDir
  generalize fs.entries.get? l = o, fs'.entries.get? l = o' at h
  cases h <;> simp

theorem SameEntry.hasFile_iff (h : SameEntry n (fs.entries.get? l) (fs'.entries.get? l)) :
    fs.HasFile l ↔ fs'.HasFile l := by
  unfold HasFile
  generalize fs.entries.get? l = o, fs'.entries.get? l = o' at h
  cases h <;> simp

theorem SameEntry.none_iff {o o' : Option Entry} (h : SameEntry n o o') :
    o = .none ↔ o' = .none := by
  cases h <;> simp

private def removals (fs : FileSystem) (d : Location) : Table Location Removal where
  entries := (fs.below d).reverse.map fun e => (e.1, removalOf e)
  ascending := by
    rw [below, List.reverse_reverse]
    exact List.pairwise_map.2 (fs.entries.ascending.filter _)

private theorem mem_removals {r : Removal} : (l, r) ∈ (fs.removals d).toList ↔
    (d <+: l ∧ l ≠ d) ∧ (fs.entries.get? l).map (fun e => removalOf (l, e)) = some r := by
  simp only [removals, Table.toList, List.mem_map, List.mem_reverse, mem_below,
    Option.map_eq_some_iff]
  constructor
  · rintro ⟨⟨l', entry⟩, ⟨hget, hbelow⟩, heq⟩
    obtain ⟨rfl, rfl⟩ := Prod.mk.inj heq
    exact ⟨hbelow, entry, hget, rfl⟩
  · rintro ⟨hbelow, entry, hget, rfl⟩
    exact ⟨(l, entry), ⟨hget, hbelow⟩, rfl⟩

theorem removalOf_below (h : ∀ l, d <+: l → SameEntry n (fs.entries.get? l) (fs'.entries.get? l)) :
    (fs.below d).map removalOf = (fs'.below d).map removalOf := by
  have hplan (fs : FileSystem) : (fs.below d).map removalOf = (fs.removals d).values.reverse := by
    simp [removals, Table.values, Function.comp_def]
  have hsame : fs.removals d = fs'.removals d := by
    refine Table.ext_get? fun l => Option.ext fun r => ?_
    rw [← Table.mem_toList_iff, ← Table.mem_toList_iff, mem_removals, mem_removals]
    exact and_congr_right fun hl => by rw [(h l hl.1).removal l]
  rw [hplan, hplan, hsame]

theorem hasBelow_iff (h : ∀ l, d <+: l → SameEntry n (fs.entries.get? l) (fs'.entries.get? l)) :
    fs.hasBelow d = fs'.hasBelow d := by
  rw [Bool.eq_iff_iff, ← not_iff_not, Bool.not_eq_true, Bool.not_eq_true, hasBelow_eq_false,
    hasBelow_eq_false]
  exact forall_congr' fun l => forall_congr' fun hl => imp_congr_right fun _ => (h l hl).none_iff

end Alike

section Finds

variable {n : Nat} {loose followLast : Bool} {fs fs' : FileSystem} {l : Location}
  {front : List String} {last : String} {p : Path}

/-- What a path leads to in two trees where the same stands at its end. Where nothing does, the one
may find the end of the way and the other not even that, if that much is granted. -/
inductive Finds (n : Nat) (loose : Bool) (l : Location) (fs fs' : FileSystem) :
    Except IoError Halt → Except IoError Halt → Prop
  | error (e : IoError) : Finds n loose l fs fs' (.error e) (.error e)
  | absent : Finds n loose l fs fs' (.ok (.absent l false)) (.ok (.absent l false))
  | missing {r r' : Except IoError Halt} : loose = true → Missing r → Missing r' →
      Finds n loose l fs fs' r r'
  | directory : fs.HasDir l → fs'.HasDir l →
      Finds n loose l fs fs' (.ok (.directory l)) (.ok (.directory l))
  | file {i i' mode : Nat} {content : String} :
      fs.entries.get? l = some (.file i mode content) →
      fs'.entries.get? l = some (.file i' mode content) → SameInode n i i' →
      Finds n loose l fs fs' (.ok (.file l i mode content)) (.ok (.file l i' mode content))

theorem finds_resolve (h : fs.IsTree) (h' : fs'.IsTree) (ha : Along p front last)
    (hblocked : fs.Blocked [] front ↔ fs'.Blocked [] front)
    (hbuilt : loose = true ∨ (fs.Built [] front ↔ fs'.Built [] front))
    (hentry : SameEntry n (fs.entries.get? (lexical [] front ++ [last]))
      (fs'.entries.get? (lexical [] front ++ [last]))) :
    Finds n loose (lexical [] front ++ [last]) fs fs' (fs.resolve followLast p)
      (fs'.resolve followLast p) := by
  cases hp : checkPath p with
  | error e =>
    rw [resolve_linkless h.linkless, resolve_linkless h'.linkless, hp]
    exact .error e
  | ok u =>
    by_cases hb : fs.Blocked [] front
    · rw [seek_blocked h ha hp hb, seek_blocked h' ha hp (hblocked.1 hb)]
      exact .error _
    have hb' : ¬fs'.Blocked [] front := fun hb' => hb (hblocked.2 hb')
    generalize hx : fs.entries.get? (lexical [] front ++ [last]) = o,
      hx' : fs'.entries.get? (lexical [] front ++ [last]) = o' at hentry
    cases hentry with
    | directory mode =>
      rw [seek_directory h ha hp ⟨mode, hx⟩, seek_directory h' ha hp ⟨mode, hx'⟩]
      exact .directory ⟨mode, hx⟩ ⟨mode, hx'⟩
    | file mode content hi =>
      rw [seek_file h ha hp hx, seek_file h' ha hp hx']
      exact .file hx hx' hi
    | none =>
      have hseek {fs : FileSystem} (h : fs.IsTree) (hb : ¬fs.Blocked [] front)
          (hx : fs.entries.get? (lexical [] front ++ [last]) = none) :
          Missing (fs.resolve followLast p) := by
        by_cases hfront : fs.Built [] front
        · rw [seek_absent h ha hp hfront hx]
          exact trivial
        · rw [seek_lost h ha hp hb hfront]
          exact rfl
      rcases hbuilt with hloose | hbuilt
      · exact .missing hloose (hseek h hb hx) (hseek h' hb' hx')
      · by_cases hfront : fs.Built [] front
        · rw [seek_absent h ha hp hfront hx, seek_absent h' ha hp (hbuilt.1 hfront) hx']
          exact .absent
        · rw [seek_lost h ha hp hb hfront,
            seek_lost h' ha hp hb' fun hfront' => hfront (hbuilt.2 hfront')]
          exact .error _

end Finds

section MakeDirs

variable {fs : FileSystem} {mode : Nat} {p : Path}

private theorem makeDirs_refused {e : IoError} (he : e.isNotFound = false)
    (hmake : fs.makeDir mode p = .error e) (hdir : fs.isDirectory p = false) :
    fs.makeDirs mode p = (.error e, fs) := by
  rw [makeDirs]
  cases ancestors p.absolute p.parts.length p.parts with
  | nil => simp [makeDirsAlong, hmake, hdir]
  | cons up above => simp [makeDirsAlong, hmake, he, hdir]

variable (hends : endsInName p = true) (hname : fs.resolveName p = fs.resolve false p)

include hends hname

theorem makeDirs_error {e : IoError} (he : e.isNotFound = false)
    (hr : ∀ followLast, fs.resolve followLast p = .error e) :
    fs.makeDirs mode p = (.error e, fs) := by
  refine makeDirs_refused he ?_ ?_
  · simp only [makeDir, hends, if_true, hname, hr]
    rfl
  · simp [isDirectory, hr]

theorem makeDirs_file {l : Location} {inode mode' : Nat} {content : String}
    (hr : ∀ followLast, fs.resolve followLast p = .ok (.file l inode mode' content)) :
    fs.makeDirs mode p = (.error .alreadyExists, fs) := by
  refine makeDirs_refused rfl ?_ ?_
  · simp only [makeDir, hends, if_true, hname, hr]
    rfl
  · simp [isDirectory, hr]

end MakeDirs

end Files.FileSystem

end Relocation
