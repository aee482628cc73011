import Relocation.Proofs.Files.Growth
import Relocation.Proofs.Files.Names
import Relocation.Proofs.Files.Removal

/-!
The grounds of a data directory: the part of a tree below a directory in which there are no links
and everything stands in a directory. What a path below the directory leads to there
(`sight_under`), and what each operation on such a path can change (`Change`).
-/

set_option autoImplicit false

namespace Relocation

open Files (IoError Location)

private theorem intercalate_ne_empty {front : List String} {last : String} (h : last ≠ "") :
    "/".intercalate (front ++ [last]) ≠ "" := by
  by_cases hfront : front = []
  · simpa [hfront] using h
  · rw [String.intercalate_append_of_ne_nil hfront (List.cons_ne_nil last []),
      String.intercalate_singleton]
    intro heq
    simp at heq

theorem checkPath_under {p : Path} {names : List String} (hne : names ≠ [])
    (h : ∀ s ∈ names, PathName s) :
    Files.FileSystem.checkPath (p.under names) ≠ .error .notFound := by
  obtain ⟨front, last, rfl⟩ : ∃ front last, names = front ++ [last] :=
    ⟨_, _, (List.dropLast_concat_getLast hne).symm⟩
  have text : (p.under (front ++ [last])).text ≠ "" := by
    rw [Path.under_eq p hne h, Path.text, ← List.append_assoc]
    intro heq
    exact intercalate_ne_empty (h last (by simp)).ne_empty (String.append_eq_empty_iff.1 heq).2
  have cs : (p.under (front ++ [last])).text.toList.isEmpty = false := by simpa using text
  unfold Files.FileSystem.checkPath
  simp only [cs]
  split
  · simp [IoError.notFound]
  · split <;> simp [IoError.notFound, IoError.nameTooLong]

namespace Files

namespace FileSystem

variable {fs fs' fs'' : FileSystem} {d here : Location} {names : List String} {p : Path}

/-- Below a directory there are no links, and everything stands in a directory. -/
structure Tidy (fs : FileSystem) (d : Location) : Prop where
  noLink : ∀ r target, r ≠ [] → fs.entries.get? (d ++ r) ≠ some (.link target)
  closed : ∀ r name, r ≠ [] → fs.entries.get? (d ++ r ++ [name]) ≠ none →
    ∃ mode, fs.entries.get? (d ++ r) = some (.directory mode)

/-- What a way along names comes to: something that stands there, nothing in a directory, nothing
without a directory, or a failure for another reason. -/
inductive Sight (fs : FileSystem) (here : Location) (names : List String) :
    Except IoError Halt → Prop
  | directory {mode : Nat} : fs.entries.get? (here ++ names) = some (.directory mode) →
      Sight fs here names (.ok (.directory (here ++ names)))
  | file {inode mode : Nat} {content : String} :
      fs.entries.get? (here ++ names) = some (.file inode mode content) →
      Sight fs here names (.ok (.file (here ++ names) inode mode content))
  | absent : fs.entries.get? (here ++ names) = none →
      (names.dropLast = [] ∨ ∃ mode, fs.entries.get? (here ++ names.dropLast) =
        some (.directory mode)) →
      Sight fs here names (.ok (.absent (here ++ names) false))
  | hidden : fs.entries.get? (here ++ names) = none → names.dropLast ≠ [] →
      Sight fs here names (.error .notFound)
  | barred {e : IoError} : e ≠ .notFound → Sight fs here names (.error e)

/-- Two trees agree on everything that does not stand below a directory. -/
def SameOutside (d : Location) (fs fs' : FileSystem) : Prop :=
  ∀ l, (∀ r, r ≠ [] → l ≠ d ++ r) → fs'.entries.get? l = fs.entries.get? l

/-- A tidy part of a tree, below the directory that a path leads to whatever stands below it. -/
structure Grounds (fs : FileSystem) (p : Path) (d : Location) : Prop extends Tidy fs d where
  leads : ∀ fs', SameOutside d fs fs' → fs'.LeadsTo p d

private theorem tidy_enter {name : String} (h : fs.Tidy here) :
    fs.Tidy (here ++ [name]) where
  noLink r target _ := by simpa using h.noLink (name :: r) target (by simp)
  closed r n _ := by simpa using h.closed (name :: r) n (by simp)

theorem Tidy.parent (h : fs.Tidy d) {r : List String} (hr : r ≠ [])
    (hsome : fs.entries.get? (d ++ r) ≠ none) :
    r.dropLast = [] ∨ ∃ mode, fs.entries.get? (d ++ r.dropLast) = some (.directory mode) := by
  obtain ⟨front, last, rfl⟩ : ∃ front last, r = front ++ [last] :=
    ⟨_, _, (List.dropLast_concat_getLast hr).symm⟩
  rw [List.dropLast_concat]
  by_cases hfront : front = []
  · exact .inl hfront
  · exact .inr (h.closed front last hfront (by simpa using hsome))

private theorem tidy_lost {name : String} (h : fs.Tidy here)
    (hget : ∀ mode, fs.entries.get? (here ++ [name]) ≠ some (.directory mode)) {rest : List String}
    (hrest : rest ≠ []) : fs.entries.get? (here ++ [name] ++ rest) = none := by
  induction rest generalizing here name with
  | nil => exact absurd rfl hrest
  | cons s rest ih =>
    have none_next : fs.entries.get? (here ++ [name] ++ [s]) = none := by
      cases hnext : fs.entries.get? (here ++ [name] ++ [s]) with
      | none => rfl
      | some entry =>
        obtain ⟨mode, hdir⟩ := h.closed [name] s (by simp) (by rw [hnext]; simp)
        exact absurd hdir (hget mode)
    by_cases hempty : rest = []
    · simpa [hempty] using none_next
    · have later : fs.entries.get? (here ++ [name] ++ [s] ++ rest) = none :=
        ih (tidy_enter h) (by rw [none_next]; simp) hempty
      simpa using later

theorem plain_or_overlong {s : String} (h : PathName s) : Plain s ∨ Overlong s := by
  rcases part_cases s with (h1 | h2) | h3 | h4 | h5
  · exact absurd h1 h.ne_empty
  · exact absurd h2 h.ne_dot
  · exact absurd h3 h.ne_dotdot
  · exact .inr h4
  · exact .inl h5

private theorem sight_enter {name : String} {rest : List String} {r : Except IoError Halt}
    {mode : Nat} (hget : fs.entries.get? (here ++ [name]) = some (.directory mode))
    (hrest : rest ≠ []) (h : Sight fs (here ++ [name]) rest r) :
    Sight fs here (name :: rest) r := by
  have hcons : here ++ name :: rest = here ++ [name] ++ rest := by simp
  cases h with
  | directory hdir =>
    rw [← hcons] at hdir ⊢
    exact .directory hdir
  | file hfile =>
    rw [← hcons] at hfile ⊢
    exact .file hfile
  | absent hnone hparent =>
    rw [← hcons] at hnone ⊢
    refine .absent hnone (.inr ?_)
    rw [List.dropLast_cons_of_ne_nil hrest]
    rcases hparent with hempty | ⟨mode', hdir⟩
    · exact ⟨mode, by simpa [hempty] using hget⟩
    · exact ⟨mode', by simpa using hdir⟩
  | hidden hnone _ =>
    rw [← hcons] at hnone
    exact .hidden hnone (by simp [List.dropLast_cons_of_ne_nil hrest])
  | barred he => exact .barred he

theorem sight_advance {followLast : Bool} (h : fs.Tidy here) (hne : names ≠ [])
    (hnames : ∀ s ∈ names, PathName s) :
    Sight fs here names (fs.advance followLast here names) := by
  induction names generalizing here with
  | nil => exact absurd rfl hne
  | cons name rest ih =>
    have hall : rest.all (· = "") = rest.isEmpty := by
      cases rest with
      | nil => rfl
      | cons s rest => simp [(hnames s (by simp)).ne_empty]
    rcases plain_or_overlong (hnames name List.mem_cons_self) with plain | long
    · cases hget : fs.entries.get? (here ++ [name]) with
      | none =>
        rw [advance_none plain hget, hall]
        cases rest with
        | nil => exact .absent hget (.inl rfl)
        | cons s rest =>
          refine .hidden ?_ (by simp)
          simpa using tidy_lost h (by simp [hget]) (List.cons_ne_nil s rest)
      | some entry =>
        cases entry with
        | directory mode =>
          rw [advance_directory plain hget]
          by_cases hrest : rest = []
          · subst hrest
            exact .directory hget
          · exact sight_enter hget hrest (ih (tidy_enter h) hrest fun s hs =>
              hnames s (List.mem_cons_of_mem name hs))
        | file inode mode content =>
          rw [advance_file plain hget]
          cases rest with
          | nil => exact .file hget
          | cons s rest => exact .barred (by simp [IoError.notDirectory, IoError.notFound])
        | link target => exact absurd hget (h.noLink [name] target (by simp))
    · rw [advance_overlong long]
      exact .barred (by simp [IoError.nameTooLong, IoError.notFound])

private theorem sight_ne_detour {r : Except IoError Halt} (h : Sight fs here names r)
    (l : Location) (rest : List String) : r ≠ .ok (.detour l rest) := by
  cases h <;> simp

theorem grounds_of_vacant (hleads : fs.LeadsTo p d)
    (hvacant : ∀ r, r ≠ [] → fs.entries.get? (d ++ r) = none) : fs.Grounds p d where
  noLink r target hr := by simp [hvacant r hr]
  closed r name hr hsome := by
    rw [List.append_assoc] at hsome
    exact absurd (hvacant (r ++ [name]) (by simp)) hsome
  leads fs' hsame := by
    have hgrows : fs.Grows fs' := .of_more fun l entry hget => by
      rw [hsame l fun r hr heq => ?_, hget]
      simp [heq, hvacant r hr] at hget
    have stays := walk_grows hgrows maxLinks [] p.parts
    rwa [show fs.walk true maxLinks [] p.parts = _ from hleads] at stays

section Under

variable (h : fs.Grounds p d) (hne : names ≠ []) (hnames : ∀ s ∈ names, PathName s)

include h hne hnames

private theorem walk_under (followLast : Bool) :
    fs.walk followLast maxLinks [] (p.under names).parts = fs.advance followLast d names := by
  rw [Path.under_eq p hne hnames]
  exact walk_append (h.leads fs fun _ _ => rfl).stem hne
    (sight_ne_detour (sight_advance h.toTidy hne hnames))

/-- What a path below a directory leads to. -/
theorem sight_under (followLast : Bool) :
    Sight fs d names (fs.resolve followLast (p.under names)) := by
  cases hp : checkPath (p.under names) with
  | ok u =>
    rw [resolve, hp]
    exact (walk_under h hne hnames followLast) ▸ sight_advance h.toTidy hne hnames
  | error e =>
    rw [resolve, hp]
    exact .barred fun he => checkPath_under hne hnames (he ▸ hp)

end Under

theorem named_under (fs : FileSystem) (p : Path) (hne : names ≠ [])
    (hnames : ∀ s ∈ names, PathName s) : endsInName (p.under names) = true ∧
      fs.resolveName (p.under names) = fs.resolve false (p.under names) := by
  obtain ⟨front, last, rfl⟩ : ∃ front last, names = front ++ [last] :=
    ⟨_, _, (List.dropLast_concat_getLast hne).symm⟩
  have hlast : PathName last := hnames last (by simp)
  have hparts : (p.under (front ++ [last])).parts = (p.stem ++ front) ++ [last] := by
    rw [Path.under_eq p hne hnames, List.append_assoc]
  exact named_concat hparts hlast.not_idle hlast.ne_dotdot

/-- What an operation below a directory does: it leaves things tidy, changes nothing elsewhere, and
puts nothing new but at the given places. -/
structure Change (d : Location) (places : List String → Prop) (fs fs' : FileSystem) : Prop where
  tidy : fs'.Tidy d
  outside : SameOutside d fs fs'
  news : ∀ r, fs'.entries.get? (d ++ r) ≠ none → fs.entries.get? (d ++ r) ≠ none ∨ places r

namespace Change

variable {places places' : List String → Prop} {r : List String}

theorem of_entries (h : fs.Tidy d) (heq : fs'.entries = fs.entries) :
    Change d places fs fs' where
  tidy := ⟨by rw [heq]; exact h.noLink, by rw [heq]; exact h.closed⟩
  outside l _ := by rw [heq]
  news r hr := .inl (by rwa [heq] at hr)

theorem refl (h : fs.Tidy d) : Change d places fs fs := of_entries h rfl

theorem mono (h : Change d places fs fs') (himp : ∀ r, places r → places' r) :
    Change d places' fs fs' :=
  ⟨h.tidy, h.outside, fun r hr => (h.news r hr).imp_right (himp r)⟩

theorem trans (h : Change d places fs fs') (h' : Change d places fs' fs'') :
    Change d places fs fs'' where
  tidy := h'.tidy
  outside l hl := (h'.outside l hl).trans (h.outside l hl)
  news r hr := (h'.news r hr).elim (h.news r) .inr

theorem of_place (h : fs.Tidy d) (hr : r ≠ []) {entry : Entry} (hlink : ∀ t, entry ≠ .link t)
    (hparent : r.dropLast = [] ∨ ∃ mode, fs.entries.get? (d ++ r.dropLast) = some (.directory mode))
    (hold : ∀ mode, fs.entries.get? (d ++ r) ≠ some (.directory mode)) :
    Change d (· = r) fs (fs.place (d ++ r) entry) where
  tidy := by
    have hget (l : Location) (hl : l ≠ d ++ r) :
        (fs.place (d ++ r) entry).entries.get? l = fs.entries.get? l :=
      Table.get?_insert_of_ne _ entry hl
    constructor
    · intro r' t hr'
      by_cases heq : d ++ r' = d ++ r
      · simpa [place, heq] using hlink t
      · rw [hget _ heq]
        exact h.noLink r' t hr'
    · intro r' name hr' hsome
      by_cases hchild : d ++ r' ++ [name] = d ++ r
      · obtain rfl : r' ++ [name] = r := by simpa using hchild
        obtain hempty | ⟨mode, hdir⟩ := hparent
        · exact absurd (by simpa using hempty) hr'
        · refine ⟨mode, ?_⟩
          rw [hget _ (by simp)]
          simpa using hdir
      · rw [hget _ hchild] at hsome
        obtain ⟨mode, hdir⟩ := h.closed r' name hr' hsome
        refine ⟨mode, ?_⟩
        rw [hget _ fun heq => hold mode (heq ▸ hdir)]
        exact hdir
  outside l hl := Table.get?_insert_of_ne _ entry (hl r hr)
  news r' hr' := by
    by_cases heq : r' = r
    · exact .inr heq
    · rw [place, Table.get?_insert_of_ne _ entry (by simpa using heq)] at hr'
      exact .inl hr'

theorem of_placeFile (h : fs.Tidy d) (hr : r ≠ []) {mode : Nat} {content : String}
    (hparent : r.dropLast = [] ∨ ∃ mode, fs.entries.get? (d ++ r.dropLast) = some (.directory mode))
    (hnone : fs.entries.get? (d ++ r) = none) :
    Change d (· = r) fs (fs.placeFile (d ++ r) mode content) := by
  have placed : Change d (· = r) fs (fs.place (d ++ r) (.file fs.nextInode mode content)) :=
    of_place h hr (by simp) hparent (by simp [hnone])
  exact ⟨⟨placed.tidy.noLink, placed.tidy.closed⟩, placed.outside, placed.news⟩

theorem of_erase (h : fs.Tidy d) (hr : r ≠ [])
    (hbelow : ∀ name, fs.entries.get? (d ++ r ++ [name]) = none) :
    Change d places fs { fs with entries := fs.entries.erase (d ++ r) } where
  tidy := by
    have kept {l : Location} (hl : (fs.entries.erase (d ++ r)).get? l ≠ none) :
        l ≠ d ++ r ∧ (fs.entries.erase (d ++ r)).get? l = fs.entries.get? l := by
      by_cases heq : l = d ++ r
      · exact absurd (by simp [heq]) hl
      · exact ⟨heq, Table.get?_erase_of_ne _ heq⟩
    constructor
    · intro r' t hr' hlink
      obtain ⟨-, hkept⟩ := kept (l := d ++ r') (by rw [hlink]; simp)
      exact h.noLink r' t hr' (hkept.symm.trans hlink)
    · intro r' name hr' hsome
      obtain ⟨-, hkept⟩ := kept hsome
      have hold : fs.entries.get? (d ++ r' ++ [name]) ≠ none := by
        rw [← hkept]
        exact hsome
      obtain ⟨mode, hdir⟩ := h.closed r' name hr' hold
      refine ⟨mode, ?_⟩
      rw [Table.get?_erase_of_ne _ fun heq => hold (by rw [heq]; exact hbelow name)]
      exact hdir
  outside l hl := Table.get?_erase_of_ne _ (hl r hr)
  news r' hr' := by
    by_cases heq : d ++ r' = d ++ r
    · exact absurd (by simp [heq]) hr'
    · rw [Table.get?_erase_of_ne _ heq] at hr'
      exact .inl hr'

theorem grounds {p : Path} (hc : Change d places fs fs') (h : fs.Grounds p d) :
    fs'.Grounds p d where
  toTidy := hc.tidy
  leads fs'' hsame := h.leads fs'' fun l hl => (hsame l hl).trans (hc.outside l hl)

end Change

section Operations

variable (h : fs.Grounds p d) (hne : names ≠ []) (hnames : ∀ s ∈ names, PathName s)

include h hne hnames

theorem stat_under : (fs.stat (p.under names) = .ok () → fs.entries.get? (d ++ names) ≠ none) ∧
    (fs.stat (p.under names) = .error .notFound → fs.entries.get? (d ++ names) = none) := by
  have sight := sight_under h hne hnames true
  unfold stat
  generalize fs.resolve true (p.under names) = r at sight
  cases sight with
  | directory hdir => simp [bind, Except.bind, hdir]
  | file hfile => simp [bind, Except.bind, hfile]
  | absent hnone _ => simp [bind, Except.bind, hnone]
  | hidden hnone _ => simp [bind, Except.bind, hnone]
  | barred he => simp [bind, Except.bind, he]

theorem makeDir_under {mode : Nat} :
    (∀ fs', fs.makeDir mode (p.under names) = .ok fs' → Change d (· = names) fs fs') ∧
      (fs.makeDir mode (p.under names) = .error .notFound → names.dropLast ≠ []) := by
  have sight := sight_under h hne hnames false
  unfold makeDir
  obtain ⟨hends, hname⟩ := named_under fs p hne hnames
  rw [hends, hname, if_pos rfl]
  generalize fs.resolve false (p.under names) = r at sight
  have exists_ne : IoError.alreadyExists ≠ .notFound := by decide
  cases sight with
  | directory _ => simp [bind, Except.bind, exists_ne]
  | file _ => simp [bind, Except.bind, exists_ne]
  | absent hnone hparent =>
    refine ⟨fun fs' heq => ?_, fun heq => by cases heq⟩
    obtain rfl := Except.ok.inj heq
    exact .of_place h.toTidy hne (by simp) hparent (by simp [hnone])
  | hidden _ hparent => exact ⟨fun fs' heq => by (cases heq), fun _ => hparent⟩
  | barred he => exact ⟨fun fs' heq => by (cases heq), fun heq => absurd (Except.error.inj heq) he⟩

theorem change_openLock : Change d (· = names) fs (fs.answer (.openLock (p.under names))).2 := by
  have sight := sight_under h hne hnames true
  simp only [answer, openFile]
  generalize fs.resolve true (p.under names) = r at sight
  cases sight with
  | absent hnone hparent => exact .of_placeFile h.toTidy hne hparent hnone
  | directory _ => exact .refl h.toTidy
  | file _ => exact .refl h.toTidy
  | hidden _ _ => exact .refl h.toTidy
  | barred _ => exact .refl h.toTidy

theorem change_write {content : String} :
    Change d (· = names) fs (fs.answer (.write (p.under names) content)).2 := by
  have sight := sight_under h hne hnames true
  simp only [answer, writeFile]
  generalize fs.resolve true (p.under names) = r at sight
  cases sight with
  | absent hnone hparent => exact .of_placeFile h.toTidy hne hparent hnone
  | file hfile =>
    refine .of_place h.toTidy hne (by simp) (h.toTidy.parent hne ?_) fun mode hdir => ?_
    · simp [hfile]
    · rw [hfile] at hdir
      cases hdir
  | directory _ => exact .refl h.toTidy
  | hidden _ _ => exact .refl h.toTidy
  | barred _ => exact .refl h.toTidy

end Operations

section Directories

private theorem ancestors_named {absolute : Bool} {fuel : Nat} {stem front : List String}
    {last : String} (hfront : front ≠ []) (hnames : ∀ s ∈ front ++ [last], PathName s) :
    ancestors absolute (fuel + 1) (stem ++ (front ++ [last])) =
      ⟨absolute, stem ++ front⟩ :: ancestors absolute fuel (stem ++ front) := by
  obtain ⟨front', last', rfl⟩ : ∃ front' last', front = front' ++ [last'] :=
    ⟨_, _, (List.dropLast_concat_getLast hfront).symm⟩
  have hlast : ¬Idle last := (hnames last (by simp)).not_idle
  have hlast' : ¬Idle last' := (hnames last' (by simp)).not_idle
  rw [← List.append_assoc stem, ← List.append_assoc stem]
  exact ancestors_concat hlast (trimParts_concat hlast')

private theorem notFound_of_isNotFound {e : IoError} (h : e.isNotFound = true) : e = .notFound := by
  simpa [IoError.isNotFound] using h

private theorem change_makeDir {mode : Nat} (h : fs.Grounds p d) (hne : names ≠ [])
    (hnames : ∀ s ∈ names, PathName s) (hmade : fs.makeDir mode (p.under names) = .ok fs') :
    Change d (fun r => r ≠ [] ∧ r <+: names) fs fs' := by
  refine ((makeDir_under h hne hnames).1 fs' hmade).mono ?_
  rintro r rfl
  exact ⟨hne, List.prefix_rfl⟩

private theorem change_makeDirsAlong {mode fuel : Nat} (h : fs.Grounds p d) (hne : names ≠ [])
    (hnames : ∀ s ∈ names, PathName s) (hfuel : names.length ≤ fuel) :
    Change d (fun r => r ≠ [] ∧ r <+: names) fs
      (makeDirsAlong mode (p.under names)
        (ancestors p.absolute fuel (p.stem ++ names)) fs).2 := by
  induction fuel generalizing names fs with
  | zero => exact absurd (List.eq_nil_of_length_eq_zero (Nat.le_zero.1 hfuel)) hne
  | succ fuel ih =>
    cases hmade : fs.makeDir mode (p.under names) with
    | ok fs' =>
      have made := change_makeDir h hne hnames hmade
      cases ancestors p.absolute (fuel + 1) (p.stem ++ names) <;>
        simpa only [makeDirsAlong, hmade] using made
    | error e =>
      cases hgone : e.isNotFound with
      | false =>
        cases ancestors p.absolute (fuel + 1) (p.stem ++ names) <;>
          simpa [makeDirsAlong, hmade, hgone] using .refl h.toTidy
      | true =>
        obtain rfl := notFound_of_isNotFound hgone
        obtain ⟨front, last, rfl⟩ : ∃ front last, names = front ++ [last] :=
          ⟨_, _, (List.dropLast_concat_getLast hne).symm⟩
        have hfront : front ≠ [] := by
          simpa using (makeDir_under h hne hnames).2 hmade
        have hfrontNames : ∀ s ∈ front, PathName s := fun s hs => hnames s (by simp [hs])
        have above : Change d (fun r => r ≠ [] ∧ r <+: front ++ [last]) fs _ :=
          (ih h hfront hfrontNames (by simpa using hfuel)).mono fun r hr =>
            ⟨hr.1, hr.2.trans (List.prefix_append front [last])⟩
        rw [ancestors_named hfront hnames, ← Path.under_eq p hfront hfrontNames]
        simp only [makeDirsAlong, hmade, hgone, if_true]
        generalize makeDirsAlong mode (p.under front)
          (ancestors p.absolute fuel (p.stem ++ front)) fs = result at above
        obtain ⟨_ | u, fs1⟩ := result
        · exact above
        · cases hlast : fs1.makeDir mode (p.under (front ++ [last])) with
          | ok fs2 =>
            simp only [hlast]
            exact above.trans (change_makeDir (above.grounds h) hne hnames hlast)
          | error e =>
            simp only [hlast]
            exact above

theorem change_makeDirs {mode : Nat} (h : fs.Grounds p d) (hne : names ≠ [])
    (hnames : ∀ s ∈ names, PathName s) :
    Change d (fun r => r ≠ [] ∧ r <+: names) fs (fs.makeDirs mode (p.under names)).2 := by
  have hpath := Path.under_eq p hne hnames
  have hfuel : names.length ≤ (p.under names).parts.length := by simp [hpath]
  have made : Change d _ fs (makeDirsAlong mode _ _ fs).2 :=
    change_makeDirsAlong h hne hnames hfuel
  rw [makeDirs]
  simpa only [hpath] using made

end Directories

section Removing

variable {r : List String} {step : Removal}

private theorem change_removeDir (h : fs.Tidy d) (hr : r ≠ [])
    (hremoved : fs.removeDir (d ++ r) = .ok fs') : Change d (fun _ => False) fs fs' := by
  unfold removeDir at hremoved
  split at hremoved
  · cases hremoved
  · split at hremoved
    · cases hremoved
    · rename_i hbelow
      obtain rfl := Except.ok.inj hremoved
      have hnothing := hasBelow_eq_false.1 (by simpa using hbelow)
      exact .of_erase h hr fun name => hnothing _ (List.prefix_append _ _) (by simp)
  · cases hremoved

private theorem change_unlink (h : fs.Tidy d) (hr : r ≠ [])
    (hremoved : fs.unlink (d ++ r) = .ok fs') : Change d (fun _ => False) fs fs' := by
  unfold unlink at hremoved
  split at hremoved
  · cases hremoved
  · cases hremoved
  · rename_i entry hnot hget
    obtain rfl := Except.ok.inj hremoved
    refine .of_erase h hr fun name => ?_
    cases hchild : fs.entries.get? (d ++ r ++ [name]) with
    | none => rfl
    | some child =>
      obtain ⟨mode, hdir⟩ := h.closed r name hr (by rw [hchild]; simp)
      exact absurd (Option.some.inj (hget.symm.trans hdir)) (hnot mode)

theorem change_remove (h : fs.Tidy d) (hr : r ≠ [])
    (hstep : step = .unlink (d ++ r) ∨ step = .removeDir (d ++ r)) :
    Change d (fun _ => False) fs (fs.answer (.remove step)).2 := by
  simp only [answer, commit]
  cases hremoved : fs.remove step with
  | error e => exact .refl h
  | ok fs' =>
    rcases hstep with rfl | rfl
    · exact change_unlink h hr hremoved
    · exact change_removeDir h hr hremoved

variable (h : fs.Grounds p d) (hne : names ≠ []) (hnames : ∀ s ∈ names, PathName s)

include h hne hnames

theorem planRemoval_under {steps : List Removal}
    (hplan : fs.planRemoval (p.under names) = .ok steps) :
    ∃ before, steps = before ++ [.removeDirPath (p.under names)] ∧
      ∀ step ∈ before, ∃ r, r ≠ [] ∧ (step = .unlink (d ++ r) ∨ step = .removeDir (d ++ r)) := by
  have sight := sight_under h hne hnames false
  unfold planRemoval at hplan
  generalize fs.resolve false (p.under names) = halt at sight hplan
  cases sight with
  | directory hdir =>
    refine ⟨_, (Except.ok.inj hplan).symm, fun step hstep => ?_⟩
    obtain ⟨⟨l, entry⟩, hentry, rfl⟩ := List.mem_map.1 hstep
    obtain ⟨-, ⟨r, rfl⟩, -⟩ := mem_below.1 hentry
    refine ⟨names ++ r, by simp [hne], ?_⟩
    rw [← List.append_assoc]
    cases entry with
    | directory mode => exact .inr rfl
    | file inode mode content => exact .inl rfl
    | link target => exact .inl rfl
  | file _ => cases hplan
  | absent _ _ => cases hplan
  | hidden _ _ => cases hplan
  | barred _ => cases hplan

theorem removeDirPath_under :
    Change d (fun _ => False) fs (fs.answer (.remove (.removeDirPath (p.under names)))).2 ∧
      ((fs.answer (.remove (.removeDirPath (p.under names)))).1 = .ok () ∨
        (fs.answer (.remove (.removeDirPath (p.under names)))).1 = .error .notFound →
        (fs.answer (.remove (.removeDirPath (p.under names)))).2.entries.get? (d ++ names) =
          none) := by
  have sight := sight_under h hne hnames false
  obtain ⟨hends, hname⟩ := named_under fs p hne hnames
  simp only [answer, commit, remove, hends, hname,
    if_true]
  generalize fs.resolve false (p.under names) = halt at sight
  cases sight with
  | directory hdir =>
    simp only [bind, Except.bind]
    cases hremoved : fs.removeDir (d ++ names) with
    | error e =>
      refine ⟨.refl h.toTidy, fun hr => ?_⟩
      obtain rfl : e = .notFound := by simpa using hr
      exact removeDir_notFound hremoved
    | ok fs' =>
      refine ⟨change_removeDir h.toTidy hne hremoved, fun _ => ?_⟩
      rw [removeDir_ok hremoved]
      exact Table.get?_erase_self _ _
  | file _ =>
    refine ⟨.refl h.toTidy, ?_⟩
    simp [bind, Except.bind, IoError.notDirectory, IoError.notFound]
  | absent hnone _ => exact ⟨.refl h.toTidy, fun _ => hnone⟩
  | hidden hnone _ => exact ⟨.refl h.toTidy, fun _ => hnone⟩
  | barred he => exact ⟨.refl h.toTidy, by simp [bind, Except.bind, he]⟩

end Removing

end FileSystem

end Files

end Relocation
