import Relocation.Proofs.Files.Names
import Relocation.Proofs.Files.Removal

/-!
The stations of a path: the directories that its way goes through where it meets no links, read off
the path alone. Where every station is a directory the way goes on behind the path
(`advance_built`); where some are missing, making the directories of the path puts directories
there and nothing else anywhere (`makeDirs_raises`), also for paths with parts that lead nowhere or
up.
-/

set_option autoImplicit false

namespace Relocation.Files

/-- Where the way along some parts leads to if it meets nothing but directories. -/
def lexical : Location → List String → Location
  | here, [] => here
  | here, s :: rest =>
    if s = "" ∨ s = "." then lexical here rest
    else if s = ".." then lexical here.dropLast rest
    else lexical (here ++ [s]) rest

/-- The directories that the way along some parts goes into. -/
def stations : Location → List String → List Location
  | _, [] => []
  | here, s :: rest =>
    if s = "" ∨ s = "." then stations here rest
    else if s = ".." then stations here.dropLast rest
    else (here ++ [s]) :: stations (here ++ [s]) rest

section Parts

variable {here : Location} {s : String} {rest : List String}

theorem lexical_idle (h : Idle s) : lexical here (s :: rest) = lexical here rest := if_pos h

theorem lexical_up : lexical here (".." :: rest) = lexical here.dropLast rest := by
  rw [lexical, if_neg (by decide), if_pos rfl]

theorem lexical_name (hidle : ¬Idle s) (hup : s ≠ "..") :
    lexical here (s :: rest) = lexical (here ++ [s]) rest := by
  rw [lexical, if_neg (show ¬(s = "" ∨ s = ".") from hidle), if_neg hup]

theorem stations_idle (h : Idle s) : stations here (s :: rest) = stations here rest := if_pos h

theorem stations_up : stations here (".." :: rest) = stations here.dropLast rest := by
  rw [stations, if_neg (by decide), if_pos rfl]

theorem stations_name (hidle : ¬Idle s) (hup : s ≠ "..") :
    stations here (s :: rest) = (here ++ [s]) :: stations (here ++ [s]) rest := by
  rw [stations, if_neg (show ¬(s = "" ∨ s = ".") from hidle), if_neg hup]

theorem lexical_append (here : Location) (xs ys : List String) :
    lexical here (xs ++ ys) = lexical (lexical here xs) ys := by
  induction xs generalizing here with
  | nil => rfl
  | cons s rest ih =>
    rw [List.cons_append]
    by_cases hidle : Idle s
    · rw [lexical_idle hidle, lexical_idle hidle, ih]
    · by_cases hup : s = ".."
      · rw [hup, lexical_up, lexical_up, ih]
      · rw [lexical_name hidle hup, lexical_name hidle hup, ih]

theorem stations_append (here : Location) (xs ys : List String) :
    stations here (xs ++ ys) = stations here xs ++ stations (lexical here xs) ys := by
  induction xs generalizing here with
  | nil => rfl
  | cons s rest ih =>
    rw [List.cons_append]
    by_cases hidle : Idle s
    · rw [stations_idle hidle, stations_idle hidle, lexical_idle hidle, ih]
    · by_cases hup : s = ".."
      · rw [hup, stations_up, stations_up, lexical_up, ih]
      · rw [stations_name hidle hup, stations_name hidle hup, lexical_name hidle hup, ih,
          List.cons_append]

private theorem stations_of_idle {tail : List String} (h : ∀ s ∈ tail, Idle s) (here : Location) :
    stations here tail = [] := by
  induction tail with
  | nil => rfl
  | cons s rest ih =>
    rw [stations_idle (h s List.mem_cons_self), ih fun t ht => h t (List.mem_cons_of_mem s ht)]

theorem prefix_lexical {parts : List String} (hup : ".." ∉ parts) :
    here <+: lexical here parts := by
  induction parts generalizing here with
  | nil => exact List.prefix_refl here
  | cons s rest ih =>
    rw [List.mem_cons, not_or] at hup
    by_cases hidle : Idle s
    · rw [lexical_idle hidle]
      exact ih hup.2
    · rw [lexical_name hidle (Ne.symm hup.1)]
      exact (List.prefix_append here [s]).trans (ih hup.2)

theorem stations_prefix {parts : List String} (hup : ".." ∉ parts) {l : Location}
    (hl : l ∈ stations here parts) : l <+: lexical here parts := by
  induction parts generalizing here with
  | nil => exact absurd hl List.not_mem_nil
  | cons s rest ih =>
    rw [List.mem_cons, not_or] at hup
    by_cases hidle : Idle s
    · rw [stations_idle hidle] at hl
      rw [lexical_idle hidle]
      exact ih hup.2 hl
    · rw [stations_name hidle (Ne.symm hup.1)] at hl
      rw [lexical_name hidle (Ne.symm hup.1)]
      rcases List.mem_cons.1 hl with rfl | hl
      · exact prefix_lexical hup.2
      · exact ih hup.2 hl

end Parts

namespace FileSystem

variable {fs fs' fs'' : FileSystem} {followLast : Bool} {here : Location} {parts : List String}

def HasDir (fs : FileSystem) (location : Location) : Prop :=
  ∃ mode, fs.entries.get? location = some (.directory mode)

def Built (fs : FileSystem) (here : Location) (parts : List String) : Prop :=
  ∀ l ∈ stations here parts, fs.HasDir l

/-- Whether a way can be built: its names are short enough, and nothing but a directory stands at
any of its stations. -/
structure Buildable (fs : FileSystem) (here : Location) (parts : List String) : Prop where
  short : ∀ s ∈ parts, Text.byteCount s.toList ≤ maxName
  clear : ∀ l ∈ stations here parts, fs.entries.get? l = none ∨ fs.HasDir l

theorem Buildable.append {xs ys : List String} (h : fs.Buildable here (xs ++ ys)) :
    fs.Buildable here xs ∧ fs.Buildable (lexical here xs) ys := by
  have hclear := h.clear
  rw [stations_append] at hclear
  refine ⟨⟨fun s hs => h.short s (by simp [hs]), fun l hl => hclear l (by simp [hl])⟩, ?_⟩
  exact ⟨fun s hs => h.short s (by simp [hs]), fun l hl => hclear l (by simp [hl])⟩

/-- A way along which all stations are there leads to a directory. -/
theorem advance_built (hshort : ∀ s ∈ parts, Text.byteCount s.toList ≤ maxName)
    (h : fs.Built here parts) :
    fs.advance followLast here parts = .ok (.directory (lexical here parts)) := by
  induction parts generalizing here with
  | nil => rfl
  | cons s rest ih =>
    have hrest : ∀ t ∈ rest, Text.byteCount t.toList ≤ maxName := fun t ht =>
      hshort t (List.mem_cons_of_mem s ht)
    unfold Built at h ih
    rcases part_cases s with hidle | rfl | hlong | hplain
    · rw [stations_idle hidle] at h
      rw [advance_idle hidle, lexical_idle hidle, ih hrest h]
    · rw [stations_up] at h
      rw [advance_up, lexical_up, ih hrest h]
    · exact absurd (hshort s List.mem_cons_self) (Nat.not_le.2 hlong.long)
    · have hname : ¬Idle s := hplain.not_idle
      rw [stations_name hname hplain.ne_dotdot] at h
      obtain ⟨mode, hget⟩ := h _ List.mem_cons_self
      rw [advance_directory hplain hget, lexical_name hname hplain.ne_dotdot,
        ih hrest fun l hl => h l (List.mem_cons_of_mem _ hl)]

theorem advance_unbuilt (hb : fs.Buildable here parts) (h : ¬fs.Built here parts) :
    Missing (fs.advance followLast here parts) := by
  induction parts generalizing here with
  | nil => exact absurd (by simp [Built, stations]) h
  | cons s rest ih =>
    obtain ⟨hshort, hclear⟩ := hb
    have hrest : ∀ t ∈ rest, Text.byteCount t.toList ≤ maxName := fun t ht =>
      hshort t (List.mem_cons_of_mem s ht)
    unfold Built at h ih
    rcases part_cases s with hidle | rfl | hlong | hplain
    · rw [stations_idle hidle] at h hclear
      rw [advance_idle hidle]
      exact ih ⟨hrest, hclear⟩ h
    · rw [stations_up] at h hclear
      rw [advance_up]
      exact ih ⟨hrest, hclear⟩ h
    · exact absurd (hshort s List.mem_cons_self) (Nat.not_le.2 hlong.long)
    · have hname : ¬Idle s := hplain.not_idle
      rw [stations_name hname hplain.ne_dotdot] at h hclear
      rcases hclear _ List.mem_cons_self with hnone | ⟨mode, hget⟩
      · rw [advance_none hplain hnone]
        split
        · trivial
        · rfl
      · rw [advance_directory hplain hget]
        refine ih ⟨hrest, fun l hl => hclear l (List.mem_cons_of_mem _ hl)⟩ fun hbuilt => h ?_
        intro l hl
        rcases List.mem_cons.1 hl with rfl | hl
        · exact ⟨mode, hget⟩
        · exact hbuilt l hl

section Paths

variable {p : Path} {front : List String} {last : String} {mode : Nat}

private theorem resolve_eq_advance (hp : checkPath p = .ok ())
    (h : ∀ l r, fs.advance followLast [] p.parts ≠ .ok (.detour l r)) :
    fs.resolve followLast p = fs.advance followLast [] p.parts := by
  rw [resolve, hp]
  exact walk_eq_advance h

theorem resolve_built (hp : checkPath p = .ok ())
    (hshort : ∀ s ∈ p.parts, Text.byteCount s.toList ≤ maxName) (h : fs.Built [] p.parts) :
    fs.resolve followLast p = .ok (.directory (lexical [] p.parts)) := by
  have hadvance : fs.advance followLast [] p.parts = _ := advance_built hshort h
  rw [resolve_eq_advance hp (by simp [hadvance]), hadvance]

private theorem missing_ne_detour {r : Except IoError Halt} (h : Missing r) (l : Location)
    (rest : List String) : r ≠ .ok (.detour l rest) := by
  rintro rfl
  exact h

theorem resolve_unbuilt (hp : checkPath p = .ok ()) (hb : fs.Buildable [] p.parts)
    (h : ¬fs.Built [] p.parts) : Missing (fs.resolve followLast p) := by
  have hmissing : Missing (fs.advance followLast [] p.parts) := advance_unbuilt hb h
  rwa [resolve_eq_advance hp (missing_ne_detour hmissing)]

theorem isDirectory_built (hp : checkPath p = .ok ())
    (hshort : ∀ s ∈ p.parts, Text.byteCount s.toList ≤ maxName) (h : fs.Built [] p.parts) :
    fs.isDirectory p = true := by
  rw [isDirectory, resolve_built hp hshort h]

theorem stat_built (hp : checkPath p = .ok ())
    (hshort : ∀ s ∈ p.parts, Text.byteCount s.toList ≤ maxName) (h : fs.Built [] p.parts) :
    fs.stat p = .ok () := by
  rw [stat, resolve_built hp hshort h]
  rfl

theorem stat_unbuilt (hp : checkPath p = .ok ()) (hb : fs.Buildable [] p.parts)
    (h : ¬fs.Built [] p.parts) : fs.stat p = .error .notFound := by
  have hmissing : Missing (fs.resolve true p) := resolve_unbuilt hp hb h
  rw [stat]
  rcases missing_cases hmissing with hr | ⟨l, slash, hr⟩ <;> rw [hr] <;> rfl

section Named

private theorem advance_named (hparts : p.parts = front ++ [last]) (hb : fs.Buildable [] front)
    (h : fs.Built [] front) : fs.advance followLast [] p.parts =
    fs.advance followLast (lexical [] front) [last] := by
  rw [hparts, advance_append (List.cons_ne_nil last []), advance_built hb.short h]

variable (hp : checkPath p = .ok ()) (hparts : p.parts = front ++ [last]) (hlast : Plain last)
  (hb : fs.Buildable [] front)

include hp hparts hlast hb

theorem resolve_named_none (h : fs.Built [] front)
    (hnone : fs.entries.get? (lexical [] front ++ [last]) = none) :
    fs.resolve followLast p = .ok (.absent (lexical [] front ++ [last]) false) := by
  have hadvance : fs.advance followLast [] p.parts =
      .ok (.absent (lexical [] front ++ [last]) false) := by
    rw [advance_named hparts hb h, advance_none hlast hnone]
    rfl
  rw [resolve_eq_advance hp (by simp [hadvance]), hadvance]

theorem resolve_named_file (h : fs.Built [] front) {inode : Nat} {content : String}
    (hfile : fs.entries.get? (lexical [] front ++ [last]) = some (.file inode mode content)) :
    fs.resolve followLast p = .ok (.file (lexical [] front ++ [last]) inode mode content) := by
  have hadvance : fs.advance followLast [] p.parts =
      .ok (.file (lexical [] front ++ [last]) inode mode content) := by
    rw [advance_named hparts hb h, advance_file hlast hfile]
    rfl
  rw [resolve_eq_advance hp (by simp [hadvance]), hadvance]

theorem resolve_named_unbuilt (h : ¬fs.Built [] front) :
    fs.resolve followLast p = .error .notFound := by
  have hadvance : fs.advance followLast [] p.parts = .error .notFound := by
    have hmissing : Missing (fs.advance true [] front) := advance_unbuilt hb h
    rw [hparts, advance_append (List.cons_ne_nil last [])]
    cases hfront : fs.advance true [] front with
    | error e =>
      rw [hfront] at hmissing
      exact congrArg Except.error hmissing
    | ok halt =>
      rw [hfront] at hmissing
      cases halt with
      | absent l slash => simp [hlast.ne_empty]
      | _ => exact hmissing.elim
  rw [resolve_eq_advance hp (by simp [hadvance]), hadvance]

end Named

end Paths

section MakeDirs

variable {p : Path} {absolute : Bool} {front : List String} {last : String} {mode : Nat}

/-- Directories are put where nothing stood; everything else stays. -/
structure Raises (mode : Nat) (dirs : List Location) (fs fs' : FileSystem) : Prop where
  kept : ∀ l entry, fs.entries.get? l = some entry → fs'.entries.get? l = some entry
  made : ∀ l ∈ dirs, fs.entries.get? l = none → fs'.entries.get? l = some (.directory mode)
  rest : ∀ l, l ∉ dirs → fs'.entries.get? l = fs.entries.get? l
  nextInode : fs'.nextInode = fs.nextInode
  held : fs'.held = fs.held

theorem raises_refl {dirs : List Location} (h : ∀ l ∈ dirs, fs.HasDir l) :
    Raises mode dirs fs fs where
  kept _ _ := id
  made l hl hnone := by
    obtain ⟨mode, hdir⟩ := h l hl
    simp [hnone] at hdir
  rest _ _ := rfl
  nextInode := rfl
  held := rfl

theorem Raises.trans {dirs dirs' : List Location} (h : Raises mode dirs fs fs')
    (h' : Raises mode dirs' fs' fs'') (hsub : ∀ l ∈ dirs, l ∈ dirs') :
    Raises mode dirs' fs fs'' where
  kept l entry hget := h'.kept l entry (h.kept l entry hget)
  made l hl hnone := by
    by_cases hmem : l ∈ dirs
    · exact h'.kept l _ (h.made l hmem hnone)
    · exact h'.made l hl ((h.rest l hmem).trans hnone)
  rest l hl := (h'.rest l hl).trans (h.rest l fun hmem => hl (hsub l hmem))
  nextInode := h'.nextInode.trans h.nextInode
  held := h'.held.trans h.held

theorem Raises.hasDir {dirs : List Location} (h : Raises mode dirs fs fs') {l : Location}
    (hl : l ∈ dirs) (hclear : fs.entries.get? l = none ∨ fs.HasDir l) : fs'.HasDir l := by
  rcases hclear with hnone | ⟨m, hdir⟩
  · exact ⟨mode, h.made l hl hnone⟩
  · exact ⟨m, h.kept l _ hdir⟩

theorem Raises.buildable {dirs : List Location} (h : Raises mode dirs fs fs')
    (hb : fs.Buildable here parts) : fs'.Buildable here parts where
  short := hb.short
  clear l hl := by
    rcases hb.clear l hl with hnone | ⟨m, hdir⟩
    · by_cases hmem : l ∈ dirs
      · exact .inr ⟨mode, h.made l hmem hnone⟩
      · exact .inl ((h.rest l hmem).trans hnone)
    · exact .inr ⟨m, h.kept l _ hdir⟩

private theorem plain_of_short (hlast : ¬Idle last) (hup : last ≠ "..")
    (hshort : Text.byteCount last.toList ≤ maxName) : Plain last := by
  rcases part_cases last with h | h | h | h
  · exact absurd h hlast
  · exact absurd h hup
  · exact absurd hshort (Nat.not_le.2 h.long)
  · exact h

theorem stations_concat (hlast : ¬Idle last) (hup : last ≠ "..") :
    stations [] (front ++ [last]) = stations [] front ++ [lexical [] front ++ [last]] := by
  rw [stations_append, stations_name hlast hup, stations]

theorem built_concat (hlast : ¬Idle last) (hup : last ≠ "..") :
    fs.Built [] (front ++ [last]) ↔
      fs.Built [] front ∧ fs.HasDir (lexical [] front ++ [last]) := by
  simp only [Built, stations_concat hlast hup, List.mem_append, List.mem_singleton]
  refine ⟨fun h => ⟨fun l hl => h l (.inl hl), h _ (.inr rfl)⟩, ?_⟩
  rintro ⟨hfront, hdir⟩ l (hl | rfl)
  · exact hfront l hl
  · exact hdir

private theorem built_up : fs.Built [] (front ++ [".."]) ↔ fs.Built [] front := by
  have heq : stations [] (front ++ [".."]) = stations [] front := by
    rw [stations_append, stations_up, stations, List.append_nil]
  rw [Built, heq, Built]

private theorem raises_place {l : Location} (h : fs.Built [] front)
    (hnone : fs.entries.get? l = none) :
    Raises mode (stations [] front ++ [l]) fs (fs.place l (.directory mode)) where
  kept l' entry hget := by
    have hne : l' ≠ l := by
      rintro rfl
      simp [hnone] at hget
    rwa [place, Table.get?_insert_of_ne _ _ hne]
  made l' hl' hget := by
    rcases List.mem_append.1 hl' with hmem | hmem
    · obtain ⟨m, hdir⟩ := h l' hmem
      simp [hget] at hdir
    · obtain rfl : l' = l := by simpa using hmem
      exact Table.get?_insert_self _ _ _
  rest l' hl' := by
    have hne : l' ≠ l := by
      rintro rfl
      simp at hl'
    rw [place, Table.get?_insert_of_ne _ _ hne]
  nextInode := rfl
  held := rfl

section MakeDir

variable (hp : checkPath p = .ok ()) (hparts : p.parts = front ++ [last]) (hlast : ¬Idle last)
  (hb : fs.Buildable [] p.parts)

include hp hparts hlast hb

private theorem makeDir_built (hfront : fs.Built [] front) :
    (∃ fs', fs.makeDir mode p = .ok fs' ∧ Raises mode (stations [] p.parts) fs fs') ∨
      (fs.makeDir mode p = .error .alreadyExists ∧ fs.Built [] p.parts) := by
  by_cases hup : last = ".."
  · subst hup
    have hbuilt : fs.Built [] p.parts := by rwa [hparts, built_up]
    refine .inr ⟨?_, hbuilt⟩
    have hends : endsInName p = false := by
      simp [endsInName, lastName_concat hparts (by decide : ".." ≠ "")]
    rw [makeDir, if_neg (by simp [hends]), stat_built hp hb.short hbuilt]
    rfl
  · have hshort : Text.byteCount last.toList ≤ maxName := hb.short last (by simp [hparts])
    have hplain := plain_of_short hlast hup hshort
    obtain ⟨hends, hname⟩ := named_concat hparts hlast hup
    have hclear := hb.clear (lexical [] front ++ [last]) (by
      simp [hparts, stations_concat hlast hup])
    have hb' := (hparts ▸ hb).append.1
    rcases hclear with hnone | hdir
    · refine .inl ⟨fs.place (lexical [] front ++ [last]) (.directory mode), ?_, ?_⟩
      · rw [makeDir, if_pos hends, hname, resolve_named_none hp hparts hplain hb' hfront hnone]
        rfl
      · rw [hparts, stations_concat hlast hup]
        exact raises_place hfront hnone
    · have hbuilt : fs.Built [] p.parts := by
        rw [hparts, built_concat hlast hup]
        exact ⟨hfront, hdir⟩
      refine .inr ⟨?_, hbuilt⟩
      rw [makeDir, if_pos hends, hname, resolve_built hp hb.short hbuilt]
      rfl

private theorem makeDir_unbuilt (hfront : ¬fs.Built [] front) :
    fs.makeDir mode p = .error .notFound := by
  have hb' := (hparts ▸ hb).append.1
  by_cases hup : last = ".."
  · subst hup
    have hunbuilt : ¬fs.Built [] p.parts := by rwa [hparts, built_up]
    have hends : endsInName p = false := by
      simp [endsInName, lastName_concat hparts (by decide : ".." ≠ "")]
    rw [makeDir, if_neg (by simp [hends]), stat_unbuilt hp hb hunbuilt]
    rfl
  · have hshort : Text.byteCount last.toList ≤ maxName := hb.short last (by simp [hparts])
    have hplain := plain_of_short hlast hup hshort
    obtain ⟨hends, hname⟩ := named_concat hparts hlast hup
    rw [makeDir, if_pos hends, hname, resolve_named_unbuilt hp hparts hplain hb' hfront]
    rfl

end MakeDir

private theorem text_prefix (absolute : Bool) (xs ys : List String) :
    (Path.mk absolute xs).text.toList <+: (Path.mk absolute (xs ++ ys)).text.toList := by
  by_cases hxs : xs = []
  · subst hxs
    simp [Path.text, String.intercalate]
  · by_cases hys : ys = []
    · simp [hys]
    · rw [Path.text, Path.text, String.intercalate_append_of_ne_nil hxs hys]
      simp only [String.toList_append, List.append_assoc]
      exact List.prefix_append_right_inj _ |>.2 (List.prefix_append _ _)

private theorem byteCount_le_of_initial {xs ys : List Char} (h : xs <+: ys) :
    Text.byteCount xs ≤ Text.byteCount ys := by
  obtain ⟨rest, rfl⟩ := h
  induction xs with
  | nil => exact Nat.zero_le _
  | cons c xs ih =>
    rw [List.cons_append, Text.byteCount, Text.byteCount]
    omega

theorem checkPath_prefix {xs ys : List String} (h : checkPath ⟨absolute, xs ++ ys⟩ = .ok ())
    (hne : (Path.mk absolute xs).text ≠ "") : checkPath ⟨absolute, xs⟩ = .ok () := by
  have hinitial := text_prefix absolute xs ys
  simp only [checkPath] at h ⊢
  split at h
  · cases h
  · rename_i hnul
    split at h
    · cases h
    · rename_i hlong
      rw [if_neg, if_neg, if_neg]
      · simpa using hne
      · exact fun hlimit => hlong (Nat.le_trans hlimit (byteCount_le_of_initial hinitial))
      · simp only [List.contains_iff_mem] at hnul ⊢
        exact fun hmem => hnul (hinitial.subset hmem)

theorem text_ne_empty (front : List String) (hlast : ¬Idle last) :
    (Path.mk absolute (front ++ [last])).text ≠ "" := by
  have hne : last ≠ "" := fun h => hlast (.inl h)
  by_cases hfront : front = []
  · simp [Path.text, hfront, String.intercalate_singleton, hne]
  · rw [Path.text, String.intercalate_append_of_ne_nil hfront (List.cons_ne_nil last []),
      String.intercalate_singleton]
    simp [hne]

theorem trimParts_append (parts : List String) :
    ∃ tail, parts = trimParts parts ++ tail ∧ ∀ s ∈ tail, Idle s := by
  refine ⟨(parts.reverse.takeWhile fun s => s = "" ∨ s = ".").reverse, ?_, ?_⟩
  · rw [trimParts, ← List.reverse_append, List.takeWhile_append_dropWhile, List.reverse_reverse]
  · intro s hs
    have hall := List.all_takeWhile (p := fun s : String => s = "" ∨ s = ".") (l := parts.reverse)
    simpa [Idle] using List.all_eq_true.1 hall s (List.mem_reverse.1 hs)

private theorem trimParts_cases (parts : List String) :
    trimParts parts = [] ∨ ∃ front last, trimParts parts = front ++ [last] ∧ ¬Idle last := by
  have hhead := List.head?_dropWhile_not (fun s : String => s = "" ∨ s = ".") parts.reverse
  rw [trimParts]
  cases hdrop : parts.reverse.dropWhile fun s => s = "" ∨ s = "." with
  | nil => exact .inl rfl
  | cons last front =>
    rw [hdrop] at hhead
    exact .inr ⟨front.reverse, last, List.reverse_cons, by simpa [Idle] using hhead⟩

private theorem makeDirsAlong_built {p : Path} (above : List Path) (hp : checkPath p = .ok ())
    (hparts : p.parts = front ++ [last]) (hlast : ¬Idle last) (hb : fs.Buildable [] p.parts)
    (hfront : fs.Built [] front) :
    ∃ fs', makeDirsAlong mode p above fs = (.ok (), fs') ∧
      Raises mode (stations [] p.parts) fs fs' := by
  rcases makeDir_built hp hparts hlast hb hfront with ⟨fs', hmake, hraises⟩ | ⟨hmake, hbuilt⟩
  · refine ⟨fs', ?_, hraises⟩
    cases above <;> simp only [makeDirsAlong, hmake]
  · have hdir := isDirectory_built hp hb.short hbuilt
    have hfound : IoError.alreadyExists.isNotFound = false := rfl
    refine ⟨fs, ?_, raises_refl hbuilt⟩
    cases above <;> simp [makeDirsAlong, hmake, hdir, hfound]

private theorem makeDirsAlong_above {p q : Path} {above : List Path}
    (hgone : fs.makeDir mode p = .error .notFound)
    (habove : makeDirsAlong mode q above fs = (.ok (), fs'))
    (hmade : makeDirsAlong mode p [] fs' = (.ok (), fs'')) :
    makeDirsAlong mode p (q :: above) fs = (.ok (), fs'') := by
  have hmissing : IoError.notFound.isNotFound = true := rfl
  rw [makeDirsAlong] at hmade
  rw [makeDirsAlong]
  simp only [hgone, hmissing, if_true, habove]
  exact hmade

private theorem makeDirsAlong_raises {fuel : Nat} (hlast : ¬Idle last)
    (hfuel : (front ++ [last]).length ≤ fuel)
    (hp : checkPath ⟨absolute, front ++ [last]⟩ = .ok ())
    (hb : fs.Buildable [] (front ++ [last])) :
    ∃ fs', makeDirsAlong mode ⟨absolute, front ++ [last]⟩
        (ancestors absolute fuel (front ++ [last])) fs = (.ok (), fs') ∧
      Raises mode (stations [] (front ++ [last])) fs fs' := by
  induction fuel generalizing front last with
  | zero => simp at hfuel
  | succ fuel ih =>
    by_cases hbuilt : fs.Built [] front
    · exact makeDirsAlong_built _ hp rfl hlast hb hbuilt
    · obtain ⟨tail, hfront, htail⟩ := trimParts_append front
      have hstations : stations [] (trimParts front) = stations [] front := by
        have heq := congrArg (stations []) hfront
        rw [stations_append, stations_of_idle htail, List.append_nil] at heq
        exact heq.symm
      rcases trimParts_cases front with hnil | ⟨front', last', hup, hlast'⟩
      · refine absurd ?_ hbuilt
        rw [Built, ← hstations, hnil]
        simp [stations]
      · rw [hup] at hfront hstations
        have hp' : checkPath ⟨absolute, front' ++ [last']⟩ = .ok () := by
          rw [hfront, List.append_assoc] at hp
          exact checkPath_prefix hp (text_ne_empty front' hlast')
        have hb' : fs.Buildable [] (front' ++ [last']) := by
          rw [hfront, List.append_assoc] at hb
          exact hb.append.1
        have hfuel' : (front' ++ [last']).length ≤ fuel := by
          have hlength := congrArg List.length hfront
          simp at hlength hfuel ⊢
          omega
        obtain ⟨fs1, hmade, hraises⟩ := ih hlast' hfuel' hp' hb'
        rw [hstations] at hraises
        have hbuilt1 : fs1.Built [] front := fun l hl =>
          hraises.hasDir hl (hb.append.1.clear l hl)
        have hgone : fs.makeDir mode ⟨absolute, front ++ [last]⟩ = .error .notFound :=
          makeDir_unbuilt hp rfl hlast hb hbuilt
        obtain ⟨fs2, hmade2, hraises2⟩ :=
          makeDirsAlong_built [] hp rfl hlast (hraises.buildable hb) hbuilt1
        refine ⟨fs2, ?_, hraises.trans hraises2 fun l hl => ?_⟩
        · rw [ancestors_concat hlast hup]
          exact makeDirsAlong_above hgone hmade hmade2
        · rw [stations_append]
          exact List.mem_append_left _ hl

/-- Making the directories of a path that ends in a name succeeds, and puts directories at its
missing stations and nothing else anywhere. -/
theorem makeDirs_raises {p : Path} (hparts : p.parts = front ++ [last]) (hlast : ¬Idle last)
    (hp : checkPath p = .ok ()) (hb : fs.Buildable [] p.parts) :
    ∃ fs', fs.makeDirs mode p = (.ok (), fs') ∧ Raises mode (stations [] p.parts) fs fs' := by
  obtain ⟨absolute, parts⟩ := p
  obtain rfl : parts = front ++ [last] := hparts
  exact makeDirsAlong_raises hlast (Nat.le_refl _) hp hb

end MakeDirs

end FileSystem

end Relocation.Files
