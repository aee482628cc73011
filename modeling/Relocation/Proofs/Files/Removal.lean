import Relocation.Files.Calls
import Relocation.Proofs.Files.Way

/-!
What is left where a path led to once something was taken away there: nothing. The main statement,
`stat_of_removed`, is about the last step of the removal of a directory, also for paths with links,
with parts that name nothing and with slashes at their ends.
-/

set_option autoImplicit false

namespace Relocation.Files

/-- The way along a path ends where nothing stands. -/
def Missing : Except IoError Halt → Prop
  | .error e => e = .notFound
  | .ok (.absent _ _) => True
  | .ok _ => False

theorem missing_cases {r : Except IoError Halt} (h : Missing r) :
    r = .error .notFound ∨ ∃ location slash, r = .ok (.absent location slash) := by
  cases r with
  | error e => exact .inl (congrArg Except.error h)
  | ok halt =>
    cases halt with
    | absent location slash => exact .inr ⟨location, slash, rfl⟩
    | _ => exact h.elim

def Halt.location? : Halt → Option Location
  | .directory location | .file location _ _ _ | .link location => some location
  | .absent _ _ | .detour _ _ => none

def NamedEnd (parts : List String) : Prop :=
  ∃ name, parts.getLast? = some name ∧ name ≠ "" ∧ name ≠ "." ∧ name ≠ ".."

private theorem namedEnd_tail {name : String} {rest : List String} (h : NamedEnd (name :: rest))
    (hrest : rest ≠ []) : NamedEnd rest := by
  obtain ⟨last, hlast, hname⟩ := h
  cases rest with
  | nil => exact absurd rfl hrest
  | cons next rest => exact ⟨last, by simpa [List.getLast?_cons_cons] using hlast, hname⟩

private theorem namedEnd_of_idle {name : String} {rest : List String}
    (h : NamedEnd (name :: rest)) (idle : Idle name) : NamedEnd rest := by
  refine namedEnd_tail h ?_
  rintro rfl
  obtain ⟨last, hlast, h1, h2, -⟩ := h
  obtain rfl : name = last := by simpa using hlast
  exact idle.elim h1 h2

private theorem namedEnd_of_up {rest : List String} (h : NamedEnd (".." :: rest)) :
    NamedEnd rest := by
  refine namedEnd_tail h ?_
  rintro rfl
  obtain ⟨last, hlast, -, -, h3⟩ := h
  exact h3 (by simpa using hlast.symm)

private theorem namedEnd_append {before rest : List String} (h : NamedEnd rest) :
    NamedEnd (before ++ rest) := by
  obtain ⟨last, hlast, hname⟩ := h
  exact ⟨last, by simp [List.getLast?_append, hlast], hname⟩

private theorem not_namedEnd_nil : ¬NamedEnd [] := fun ⟨_, h, _⟩ => by simp at h

namespace FileSystem

variable {fs fs' : FileSystem} {here location : Location} {parts : List String} {halt : Halt}

/-- A tree from which things may have been taken away. -/
def Within (fs' fs : FileSystem) : Prop :=
  ∀ l, fs'.entries.get? l = none ∨ fs'.entries.get? l = fs.entries.get? l

theorem within_refl (fs : FileSystem) : fs.Within fs := fun _ => .inr rfl

theorem within_erase (fs : FileSystem) (location : Location) :
    Within { fs with entries := fs.entries.erase location } fs := by
  intro l
  by_cases h : l = location
  · exact .inl (by simp [h])
  · exact .inr (Table.get?_erase_of_ne _ h)

private theorem missing_advance_none {name : String} {rest : List String} (plain : Plain name)
    (hget : fs.entries.get? (here ++ [name]) = none) :
    Missing (fs.advance true here (name :: rest)) := by
  rw [advance_none plain hget]
  split
  · trivial
  · rfl

/-- Whether a way that came to something in one tree comes to it in another one too: it takes the
same turn at a link, also when more parts follow, and what it halts at stands there. -/
private structure Lasts (fs' : FileSystem) (here : Location) (parts tail : List String)
    (r : Except IoError Halt) : Prop where
  found : ¬Missing r
  detours : ∀ l rest, r = .ok (.detour l rest) → (NamedEnd parts → NamedEnd rest) ∧
    fs'.advance true here (parts ++ tail) = .ok (.detour l (rest ++ tail))
  stands : ∀ halt location, r = .ok halt → halt.location? = some location →
    (∀ l, halt = .directory l → NamedEnd parts) → fs'.entries.get? location ≠ none

section Lasts

variable {name : String} {rest tail : List String} {r : Except IoError Halt}

private theorem Lasts.turn {here' : Location} (h : Lasts fs' here' rest tail r)
    (hadvance : fs'.advance true here (name :: rest ++ tail) =
      fs'.advance true here' (rest ++ tail))
    (hend : NamedEnd (name :: rest) → NamedEnd rest) : Lasts fs' here (name :: rest) tail r where
  found := h.found
  detours l rest' hr := by
    obtain ⟨hnamed, hdetour⟩ := h.detours l rest' hr
    exact ⟨fun hparts => hnamed (hend hparts), hadvance.trans hdetour⟩
  stands halt location hr hat hparts :=
    h.stands halt location hr hat fun l hl => hend (hparts l hl)

private theorem lasts_error {e : IoError} (he : e ≠ .notFound) :
    Lasts fs' here parts tail (.error e) := ⟨he, nofun, nofun⟩

private theorem lasts_entry (hfound : ¬Missing (.ok halt)) (hat : halt.location? = some location)
    (hstands : fs'.entries.get? location ≠ none) : Lasts fs' here parts tail (.ok halt) where
  found := hfound
  detours l rest hr := by
    rw [Except.ok.inj hr] at hat
    cases hat
  stands halt' location' hr hat' _ := by
    rw [← Except.ok.inj hr, hat] at hat'
    rwa [← Option.some.inj hat']

end Lasts

private theorem Way.within {r : Except IoError Halt} (h : Way fs false here parts r)
    (hw : fs'.Within fs) (tail : List String) :
    Missing (fs'.advance true here (parts ++ tail)) ∨ Lasts fs' here parts tail r := by
  induction h with
  | arrived =>
    refine .inr ⟨id, nofun, fun halt location hr _ hend => ?_⟩
    obtain rfl := Except.ok.inj hr
    exact absurd (hend _ rfl) not_namedEnd_nil
  | idle idle _ ih =>
    rw [List.cons_append, advance_idle idle]
    exact ih.imp_right fun h => h.turn (advance_idle idle) fun hend => namedEnd_of_idle hend idle
  | up _ ih =>
    rw [List.cons_append, advance_up]
    exact ih.imp_right fun h => h.turn advance_up namedEnd_of_up
  | overlong _ => exact .inr (lasts_error (by decide))
  | absent plain hget _ =>
    exact .inl (missing_advance_none plain ((hw _).elim id (·.trans hget)))
  | lost plain hget _ =>
    exact .inl (missing_advance_none plain ((hw _).elim id (·.trans hget)))
  | @enter here name rest r mode plain hget way ih =>
    rcases hw (here ++ [name]) with gone | kept
    · exact .inl (missing_advance_none plain gone)
    · rw [List.cons_append, advance_directory plain (kept.trans hget)]
      by_cases hrest : rest = []
      · subst hrest
        cases way
        exact .inr (lasts_entry id rfl (by simp [kept, hget]))
      · exact ih.imp_right fun h => h.turn (advance_directory plain (kept.trans hget))
          fun hend => namedEnd_tail hend hrest
  | @file here name inode mode content plain hget =>
    rcases hw (here ++ [name]) with gone | kept
    · exact .inl (missing_advance_none plain gone)
    · exact .inr (lasts_entry id rfl (by simp [kept, hget]))
  | blocked _ _ _ => exact .inr (lasts_error (by decide))
  | @link here name target plain hget _ =>
    rcases hw (here ++ [name]) with gone | kept
    · exact .inl (missing_advance_none plain gone)
    · exact .inr (lasts_entry id rfl (by simp [kept, hget]))
  | @detour here name rest target plain hget hlast =>
    have hrest : rest ≠ [] := hlast.resolve_right (by simp)
    rcases hw (here ++ [name]) with gone | kept
    · exact .inl (missing_advance_none plain gone)
    · refine .inr ⟨id, fun l rest' hr => ?_, fun halt location hr hat _ => ?_⟩
      · obtain ⟨rfl, rfl⟩ : _ = l ∧ _ = rest' := by
          simpa [FileSystem.detour] using Except.ok.inj hr
        refine ⟨fun hend => namedEnd_append (namedEnd_tail hend hrest), ?_⟩
        rw [List.cons_append, advance_link plain (kept.trans hget), if_neg (by simp)]
        simp [FileSystem.detour]
      · obtain rfl := Except.ok.inj hr
        simp [Halt.location?, FileSystem.detour] at hat

private theorem missing_walk {links : Nat} (h : Missing (fs.advance true here parts)) :
    Missing (fs.walk true links here parts) := by
  rwa [walk_eq_advance]
  intro l r heq
  simp [heq, Missing] at h

private theorem walk_within (hw : fs'.Within fs) (tail : List String) (links : Nat)
    (here : Location) (parts : List String) :
    Missing (fs'.walk true links here (parts ++ tail)) ∨
      (¬Missing (fs.walk false links here parts) ∧
        ∀ halt location, fs.walk false links here parts = .ok halt →
          halt.location? = some location → (∀ l, halt = .directory l → NamedEnd parts) →
          fs'.entries.get? location ≠ none) := by
  induction links generalizing here parts with
  | zero =>
    rcases (way_advance fs false here parts).within hw tail with gone | ⟨h1, -, h3⟩
    · exact .inl (missing_walk gone)
    · by_cases hd : ∃ l rest, fs.advance false here parts = .ok (.detour l rest)
      · obtain ⟨l, rest, hd⟩ := hd
        refine .inr ⟨by simp [walk_zero_detour hd, Missing, IoError.notFound,
          IoError.tooManyLinks], fun halt location hr => ?_⟩
        simp [walk_zero_detour hd] at hr
      · rw [walk_eq_advance fun l rest heq => hd ⟨l, rest, heq⟩]
        exact .inr ⟨h1, h3⟩
  | succ links ih =>
    rcases (way_advance fs false here parts).within hw tail with gone | ⟨h1, h2, h3⟩
    · exact .inl (missing_walk gone)
    · by_cases hd : ∃ l rest, fs.advance false here parts = .ok (.detour l rest)
      · obtain ⟨l, rest, hd⟩ := hd
        obtain ⟨hend, hd'⟩ := h2 l rest hd
        rw [walk_succ_detour hd, walk_succ_detour hd']
        refine (ih l rest).imp_right fun ⟨h1, h3⟩ => ⟨h1, ?_⟩
        intro halt location hr hat hdir
        exact h3 halt location hr hat fun d hd => hend (hdir d hd)
      · rw [walk_eq_advance fun l rest heq => hd ⟨l, rest, heq⟩]
        exact .inr ⟨h1, h3⟩

theorem stat_of_missing {p : Path} (hp : checkPath p = .ok ())
    (h : Missing (fs.walk true maxLinks [] p.parts)) : fs.stat p = .error .notFound := by
  unfold stat resolve
  rw [hp]
  cases hwalk : fs.walk true maxLinks [] p.parts with
  | error e =>
    rw [hwalk] at h
    obtain rfl : e = .notFound := h
    simp [bind, Except.bind]
  | ok halt =>
    rw [hwalk] at h
    cases halt <;> simp_all [Missing, bind, Except.bind]

theorem trimSlashes_append (parts : List String) :
    ∃ tail, parts = trimSlashes parts ++ tail := by
  refine ⟨(parts.reverse.takeWhile (· = "")).reverse, ?_⟩
  rw [trimSlashes, ← List.reverse_append, List.takeWhile_append_dropWhile, List.reverse_reverse]

private theorem namedEnd_of_endsInName {p : Path} (h : endsInName p = true) :
    NamedEnd (trimSlashes p.parts) := by
  cases hlast : (trimSlashes p.parts).getLast? with
  | none => simp [endsInName, lastName, hlast] at h
  | some name => exact ⟨name, hlast, by simpa [endsInName, lastName, hlast, and_assoc] using h⟩

private theorem resolveName_within (hw : fs'.Within fs) (p : Path) :
    fs'.stat p = .error .notFound ∨
      (fs.resolveName p ≠ .error .notFound ∧
        (∀ location slash, fs.resolveName p ≠ .ok (.absent location slash)) ∧
        ∀ halt location, fs.resolveName p = .ok halt → halt.location? = some location →
          (∀ l, halt = .directory l → endsInName p = true) → fs'.entries.get? location ≠ none) := by
  cases hp : checkPath p with
  | error e =>
    have hname : fs.resolveName p = .error e := by simp [resolveName, hp, bind, Except.bind]
    by_cases he : e = .notFound
    · subst he
      exact .inl (by simp [stat, resolve, hp, bind, Except.bind])
    · exact .inr ⟨by simpa [hname] using he, by simp [hname], by simp [hname]⟩
  | ok u =>
    have hname : fs.resolveName p = fs.walk false maxLinks [] (trimSlashes p.parts) := by
      simp [resolveName, hp, bind, Except.bind]
    obtain ⟨tail, htail⟩ := trimSlashes_append p.parts
    rcases walk_within hw tail maxLinks [] (trimSlashes p.parts) with gone | ⟨h1, h2⟩
    · rw [← htail] at gone
      exact .inl (stat_of_missing hp gone)
    · rw [hname]
      refine .inr ⟨fun h => h1 (by rw [h]; rfl), fun l slash h => h1 (by rw [h]; trivial), ?_⟩
      intro halt location hr hat hend
      exact h2 halt location hr hat fun l hl => namedEnd_of_endsInName (hend l hl)

theorem unlink_ok {location : Location} (h : fs.unlink location = .ok fs') :
    fs' = { fs with entries := fs.entries.erase location } := by
  unfold unlink at h
  split at h <;> simp_all

theorem unlink_notFound {location : Location} (h : fs.unlink location = .error .notFound) :
    fs.entries.get? location = none := by
  unfold unlink at h
  split at h <;> simp_all [IoError.isDirectory, IoError.notFound]

theorem removeDir_ok {location : Location} (h : fs.removeDir location = .ok fs') :
    fs' = { fs with entries := fs.entries.erase location } := by
  unfold removeDir at h
  split at h
  · cases h
  · split at h <;> simp_all
  · cases h

theorem removeDir_notFound {location : Location} (h : fs.removeDir location = .error .notFound) :
    fs.entries.get? location = none := by
  unfold removeDir at h
  split at h
  · assumption
  · split at h <;> simp_all [IoError.notEmpty, IoError.notFound]
  · simp [IoError.notDirectory, IoError.notFound] at h

private theorem stat_of_erased {p : Path} {location : Location} {halt : Halt}
    (hname : fs.resolveName p = .ok halt) (hat : halt.location? = some location)
    (hend : ∀ l, halt = .directory l → endsInName p = true) :
    stat { fs with entries := fs.entries.erase location } p = .error .notFound := by
  rcases resolveName_within (fs.within_erase location) p with gone | ⟨-, -, h⟩
  · exact gone
  · exact absurd (Table.get?_erase_self _ _) (h halt location hname hat hend)

private theorem mem_of_resolveName {p : Path} {location : Location} {halt : Halt}
    (hname : fs.resolveName p = .ok halt) (hat : halt.location? = some location)
    (hend : ∀ l, halt = .directory l → endsInName p = true) :
    fs.stat p = .error .notFound ∨ fs.entries.get? location ≠ none :=
  (resolveName_within fs.within_refl p).imp_right fun ⟨_, _, h⟩ => h halt location hname hat hend

private theorem stat_of_taken {p : Path} {location : Location} {halt : Halt}
    {taken : Except IoError FileSystem} (hname : fs.resolveName p = .ok halt)
    (hat : halt.location? = some location) (hend : ∀ l, halt = .directory l → endsInName p = true)
    (hgone : taken = .error .notFound → fs.entries.get? location = none)
    (herased : ∀ after, taken = .ok after →
      after = { fs with entries := fs.entries.erase location }) :
    (taken = .error .notFound → fs.stat p = .error .notFound) ∧
      ∀ after, taken = .ok after → after.stat p = .error .notFound := by
  constructor
  · intro h
    exact (mem_of_resolveName hname hat hend).resolve_right (not_not_intro (hgone h))
  · intro after h
    rw [herased after h]
    exact stat_of_erased hname hat hend

private theorem stat_of_absent {p : Path}
    (h : fs.resolveName p = .error .notFound ∨
      ∃ location slash, fs.resolveName p = .ok (.absent location slash)) :
    fs.stat p = .error .notFound := by
  rcases resolveName_within fs.within_refl p with gone | ⟨h1, h2, -⟩
  · exact gone
  · rcases h with h | ⟨location, slash, h⟩
    · exact absurd h h1
    · exact absurd h (h2 location slash)

private theorem resolveName_ne_detour {p : Path} {l : Location} {r : List String} :
    fs.resolveName p ≠ .ok (.detour l r) := by
  unfold resolveName
  cases checkPath p with
  | error e => simp [bind, Except.bind]
  | ok u => exact walk_ne_detour

private theorem stat_of_removeDirPath {p : Path} :
    (fs.remove (.removeDirPath p) = .error .notFound → fs.stat p = .error .notFound) ∧
      ∀ after, fs.remove (.removeDirPath p) = .ok after → after.stat p = .error .notFound := by
  by_cases hend : endsInName p = true
  · simp only [remove, hend, if_true]
    cases hname : fs.resolveName p with
    | error e =>
      refine ⟨fun h => stat_of_absent (.inl ?_), fun _ h => by cases h⟩
      exact hname.trans (by simpa [bind, Except.bind] using h)
    | ok halt =>
      cases halt with
      | directory location =>
        exact stat_of_taken hname rfl (fun _ _ => hend) removeDir_notFound fun _ => removeDir_ok
      | absent location slash =>
        exact ⟨fun _ => stat_of_absent (.inr ⟨location, slash, hname⟩), fun _ h => by cases h⟩
      | detour l r => exact absurd hname resolveName_ne_detour
      | file _ _ _ _ =>
        exact ⟨fun h => by simp [bind, Except.bind, IoError.notDirectory, IoError.notFound] at h,
          fun _ h => by cases h⟩
      | link _ =>
        exact ⟨fun h => by simp [bind, Except.bind, IoError.notDirectory, IoError.notFound] at h,
          fun _ h => by cases h⟩
  · have hend' : endsInName p = false := by simpa using hend
    simp only [remove, hend', Bool.false_eq_true, if_false]
    cases hstat : fs.stat p with
    | error e =>
      refine ⟨fun h => ?_, fun _ h => by cases h⟩
      simpa [bind, Except.bind] using h
    | ok u =>
      refine ⟨fun h => ?_, fun _ h => by cases h⟩
      by_cases hdot : lastName p = "." <;>
        simp [bind, Except.bind, hdot, IoError.invalidArgument, IoError.notEmpty,
          IoError.notFound] at h

private theorem stat_of_unlinkPath {p : Path} :
    (fs.remove (.unlinkPath p) = .error .notFound → fs.stat p = .error .notFound) ∧
      ∀ after, fs.remove (.unlinkPath p) = .ok after → after.stat p = .error .notFound := by
  simp only [remove]
  cases hname : fs.resolveName p with
  | error e =>
    refine ⟨fun h => stat_of_absent (.inl ?_), fun _ h => by cases h⟩
    exact hname.trans (by simpa [bind, Except.bind] using h)
  | ok halt =>
    cases halt with
    | directory _ =>
      exact ⟨fun h => by simp [bind, Except.bind, IoError.isDirectory, IoError.notFound] at h,
        fun _ h => by cases h⟩
    | absent location slash =>
      exact ⟨fun _ => stat_of_absent (.inr ⟨location, slash, hname⟩), fun _ h => by cases h⟩
    | detour l r => exact absurd hname resolveName_ne_detour
    | file location _ _ _ =>
      exact stat_of_taken hname rfl (fun _ hl => by cases hl) unlink_notFound fun _ => unlink_ok
    | link location =>
      exact stat_of_taken hname rfl (fun _ hl => by cases hl) unlink_notFound fun _ => unlink_ok

/-- Once the last step of the removal of a directory is done, or finds nothing to do, the path of
the directory leads to nothing. -/
theorem stat_of_removed {p : Path} {step : Removal}
    (hstep : step = .removeDirPath p ∨ step = .unlinkPath p) {r : Except IoError Unit}
    (hr : r = .ok () ∨ r = .error .notFound)
    (h : fs.answer (.remove step) = (r, fs')) : fs'.stat p = .error .notFound := by
  have both : (fs.remove step = .error .notFound → fs.stat p = .error .notFound) ∧
      ∀ after, fs.remove step = .ok after → after.stat p = .error .notFound := by
    rcases hstep with rfl | rfl
    · exact stat_of_removeDirPath
    · exact stat_of_unlinkPath
  cases hremove : fs.remove step with
  | error e =>
    obtain ⟨rfl, rfl⟩ : Except.error e = r ∧ fs = fs' := by
      simpa [answer, commit, hremove] using h
    obtain rfl : e = .notFound := by simpa using hr
    exact both.1 hremove
  | ok after =>
    obtain ⟨-, rfl⟩ : Except.ok () = r ∧ after = fs' := by
      simpa [answer, commit, hremove] using h
    exact both.2 after hremove

theorem mem_below {d : Location} {e : Location × Entry} :
    e ∈ fs.below d ↔ fs.entries.get? e.1 = some e.2 ∧ d <+: e.1 ∧ e.1 ≠ d := by
  have hlonger (h : d <+: e.1) : d.length < e.1.length ↔ e.1 ≠ d := by
    refine ⟨fun hlong heq => ?_, fun hne => ?_⟩
    · rw [heq] at hlong
      exact Nat.lt_irrefl _ hlong
    · exact Nat.lt_of_le_of_ne h.length_le fun heq => hne (h.eq_of_length heq).symm
  have hstands : e ∈ fs.entries.toList ↔ fs.entries.get? e.1 = some e.2 :=
    Table.mem_toList_iff fs.entries e.1 e.2
  simp only [below, List.mem_reverse, List.mem_filter, hstands, Bool.and_eq_true,
    decide_eq_true_eq, List.isPrefixOf_iff_prefix]
  exact and_congr_right fun _ => and_congr_right hlonger

theorem hasBelow_eq_false {d : Location} :
    fs.hasBelow d = false ↔ ∀ l, d <+: l → l ≠ d → fs.entries.get? l = none := by
  have hempty : fs.hasBelow d = false ↔ fs.below d = [] := by simp [hasBelow]
  rw [hempty, List.eq_nil_iff_forall_not_mem]
  refine ⟨fun h l hl hne => ?_, fun h e he => ?_⟩
  · cases hget : fs.entries.get? l with
    | none => rfl
    | some entry => exact absurd (mem_below.2 ⟨hget, hl, hne⟩) (h (l, entry))
  · obtain ⟨hget, hl, hne⟩ := mem_below.1 he
    rw [h e.1 hl hne] at hget
    cases hget

theorem planRemoval_last {p : Path} {steps : List Removal}
    (h : fs.planRemoval p = .ok steps) :
    ∃ before last, steps = before ++ [last] ∧
      (last = .removeDirPath p ∨ last = .unlinkPath p) := by
  unfold planRemoval at h
  cases hresolve : fs.resolve false p with
  | error e => simp [hresolve, bind, Except.bind] at h
  | ok halt =>
    cases halt <;> simp [hresolve, bind, Except.bind] at h
    · exact ⟨_, _, h.symm, .inl rfl⟩
    · exact ⟨[], _, h.symm, .inr rfl⟩

theorem advance_congr (h : fs'.entries = fs.entries) (followLast : Bool) (here : Location)
    (parts : List String) :
    fs'.advance followLast here parts = fs.advance followLast here parts := by
  induction parts generalizing here with
  | nil => rfl
  | cons name rest ih => simp only [advance, h, ih]

theorem walk_congr (h : fs'.entries = fs.entries) (followLast : Bool) (links : Nat)
    (here : Location) (parts : List String) :
    fs'.walk followLast links here parts = fs.walk followLast links here parts := by
  induction links generalizing here parts with
  | zero => simp only [walk, advance_congr h]
  | succ links ih => simp only [walk, advance_congr h, ih]

theorem stat_congr (h : fs'.entries = fs.entries) (p : Path) : fs'.stat p = fs.stat p := by
  simp only [stat, resolve, walk_congr h]

@[simp] theorem stat_release {p : Path} {inode : Nat} :
    (fs.release inode).stat p = fs.stat p :=
  stat_congr (show (fs.release inode).entries = fs.entries from rfl) p

end FileSystem

end Relocation.Files
