import Relocation.ExportDirs
import Relocation.Proofs.Files.Way
import Relocation.WriteLock

/-!
Paths that lead on from a directory along plain names. A path is extended name by name
(`Path.under`), and a way that reaches a directory goes on from there (`walk_append`).
-/

set_option autoImplicit false

namespace Relocation

open Files (Location)

/-- A name that is one part of a path and leads to something of its own. -/
structure PathName (s : String) : Prop where
  ne_empty : s ≠ ""
  ne_dot : s ≠ "."
  ne_dotdot : s ≠ ".."
  noSlash : '/' ∉ s.toList

instance (s : String) : Decidable (PathName s) :=
  decidable_of_iff (s ≠ "" ∧ s ≠ "." ∧ s ≠ ".." ∧ '/' ∉ s.toList)
    ⟨fun ⟨h, h', h'', hs⟩ => ⟨h, h', h'', hs⟩,
      fun h => ⟨h.ne_empty, h.ne_dot, h.ne_dotdot, h.noSlash⟩⟩

theorem PathName.not_idle {s : String} (h : PathName s) : ¬Files.Idle s :=
  fun idle => idle.elim h.ne_empty h.ne_dot

private theorem splitSlashes_of_noSlash {cs : List Char} (h : '/' ∉ cs) :
    splitSlashes cs = [cs] := by
  induction cs with
  | nil => rfl
  | cons c rest ih =>
    obtain ⟨hc, hrest⟩ := List.ne_and_not_mem_of_not_mem_cons h
    rw [splitSlashes, if_neg fun heq => hc heq.symm, ih hrest]

namespace Path

/-- The parts of a path that stay when more is put below it. -/
def stem (p : Path) : List String :=
  if p.parts.getLast? = some "" then p.parts.dropLast else p.parts

def under (p : Path) (names : List String) : Path := names.foldl join p

theorem ofText_name {s : String} (h : PathName s) : ofText s = ⟨false, [s]⟩ := by
  unfold ofText
  split
  · rename_i rest hs
    exact absurd (hs ▸ List.mem_cons_self) h.noSlash
  · rw [splitSlashes_of_noSlash h.noSlash]
    simp

theorem join_name (p : Path) {s : String} (h : PathName s) :
    p.join s = ⟨p.absolute, p.stem ++ [s]⟩ := by
  rw [join, ofText_name h]
  rfl

theorem getLast?_join (p : Path) {s : String} (h : PathName s) :
    (p.join s).parts.getLast? = some s := by
  rw [join_name p h, List.getLast?_concat]

theorem stem_of_named {p : Path} {front : List String} {s : String} (h : PathName s)
    (hp : p.parts = front ++ [s]) : p.stem = p.parts := by
  rw [stem, if_neg]
  simpa [hp] using h.ne_empty

theorem stem_append (p : Path) : p.parts = p.stem ∨ p.parts = p.stem ++ [""] := by
  unfold stem
  split
  · rename_i hlast
    obtain ⟨front, hfront⟩ := List.getLast?_eq_some_iff.1 hlast
    exact .inr (by simp [hfront])
  · exact .inl rfl

theorem under_eq (p : Path) {names : List String} (hne : names ≠ [])
    (h : ∀ s ∈ names, PathName s) : p.under names = ⟨p.absolute, p.stem ++ names⟩ := by
  induction names generalizing p with
  | nil => exact absurd rfl hne
  | cons s rest ih =>
    have hs : PathName s := h s List.mem_cons_self
    have hjoin := join_name p hs
    by_cases hrest : rest = []
    · subst hrest
      exact hjoin
    · have hstem : (p.join s).stem = p.stem ++ [s] := by
        rw [stem_of_named hs (by rw [hjoin]), hjoin]
      rw [under, List.foldl_cons, ← under, ih _ hrest fun t ht => h t (List.mem_cons_of_mem s ht),
        hstem, hjoin, List.append_assoc]
      rfl

end Path

/-- Whether the names of a key are parts of a path. -/
def ObjectKey.Placeable (k : ObjectKey) : Prop := PathName k.space ∧ PathName k.name

instance (k : ObjectKey) : Decidable k.Placeable :=
  inferInstanceAs (Decidable (PathName k.space ∧ PathName k.name))

/-- The names below the data directory along which the export directory of a key stands. -/
def ObjectKey.place (k : ObjectKey) : List String := ["namespaces", k.space, k.name]

section Places

variable {k : ObjectKey}

theorem pathNames_place (hk : k.Placeable) {names : List String}
    (hnames : ∀ s ∈ names, PathName s) : ∀ s ∈ k.place ++ names, PathName s := by
  have spaces : PathName "namespaces" := by decide
  intro s hs
  simp only [ObjectKey.place, List.cons_append, List.nil_append, List.mem_cons] at hs
  rcases hs with rfl | rfl | rfl | hs
  · exact spaces
  · exact hk.1
  · exact hk.2
  · exact hnames s hs

theorem pathNames_of_placeable (hk : k.Placeable) : ∀ s ∈ k.place, PathName s := by
  simpa using pathNames_place hk (List.forall_mem_nil _)

theorem lockDir_under (dataDir : Path) (k : ObjectKey) :
    (exportDirs dataDir k).lock = dataDir.under k.place := rfl

theorem filesDir_under (dataDir : Path) (k : ObjectKey) :
    (exportDirs dataDir k).files = dataDir.under (k.place ++ ["files"]) := rfl

theorem artifactPath_under (dataDir : Path) (k : ObjectKey) (artifact : Artifact) :
    (exportDirs dataDir k).files.join artifact.fileName =
      dataDir.under (k.place ++ ["files", artifact.fileName]) := rfl

theorem lockPath_under (dataDir : Path) (k : ObjectKey) :
    (exportDirs dataDir k).lock.join lockFileName = dataDir.under (k.place ++ [lockFileName]) := rfl

theorem pathNames_lock : ∀ s ∈ [lockFileName], PathName s := by
  simp only [List.mem_singleton, forall_eq]
  decide

theorem pathNames_artifact (artifact : Artifact) :
    ∀ s ∈ ["files", artifact.fileName], PathName s := by
  have files : PathName "files" := by decide
  have name : PathName artifact.fileName := by
    cases artifact <;> decide
  simp [files, name]

theorem pathNames_files : ∀ s ∈ ["files"], PathName s := by
  simp only [List.mem_singleton, forall_eq]
  decide

end Places

namespace Files.FileSystem

variable {fs : FileSystem} {followLast : Bool} {here d : Location} {xs ys : List String}

theorem advance_append (hys : ys ≠ []) :
    fs.advance followLast here (xs ++ ys) =
      match fs.advance true here xs with
      | .ok (.directory d) => fs.advance followLast d ys
      | .ok (.detour l rest) => .ok (.detour l (rest ++ ys))
      | .ok (.absent l _) => if ys.all (· = "") then .ok (.absent l true) else .error .notFound
      | .ok (.file _ _ _ _) => .error .notDirectory
      | .ok (.link _) => .error .notFound
      | .error e => .error e := by
  generalize hr : fs.advance true here xs = r
  have way : Way fs true here xs r := hr ▸ way_advance fs true here xs
  clear hr
  have more (rest : List String) : (rest ++ ys).isEmpty = false := by simp [hys]
  induction way with
  | arrived => rfl
  | idle idle _ ih => rw [List.cons_append, advance_idle idle, ih]
  | up _ ih => rw [List.cons_append, advance_up, ih]
  | overlong long => exact advance_overlong long
  | @absent here name rest plain hget hall =>
    rw [List.cons_append, advance_none plain hget, more, List.all_append,
      List.all_eq_true.2 fun s hs => decide_eq_true (hall s hs)]
    rfl
  | lost plain hget hall =>
    rw [List.cons_append, advance_none plain hget, if_neg]
    simp only [List.all_append, Bool.and_eq_true, List.all_eq_true, decide_eq_true_eq]
    exact fun h => hall h.1
  | enter plain hget _ ih => rw [List.cons_append, advance_directory plain hget, ih]
  | file plain hget =>
    rw [List.cons_append, advance_file plain hget, if_neg (by simp [hys])]
  | blocked plain hget _ =>
    rw [List.cons_append, advance_file plain hget, if_neg (by simp [more])]
  | link _ _ hlast => exact absurd hlast (by simp)
  | detour plain hget _ =>
    rw [List.cons_append, advance_link plain hget, if_neg (by simp [more])]
    simp [FileSystem.detour]

/-- A way that reaches a directory goes on from there. -/
theorem walk_append {links : Nat} (h : fs.walk true links here xs = .ok (.directory d))
    (hys : ys ≠ []) (hgo : ∀ l r, fs.advance followLast d ys ≠ .ok (.detour l r)) :
    fs.walk followLast links here (xs ++ ys) = fs.advance followLast d ys := by
  have go {here : Location} {xs : List String}
      (h : fs.advance true here xs = .ok (.directory d)) :
      fs.advance followLast here (xs ++ ys) = fs.advance followLast d ys := by
    rw [advance_append hys, h]
  induction links generalizing here xs with
  | zero =>
    by_cases hd : ∃ l rest, fs.advance true here xs = .ok (.detour l rest)
    · obtain ⟨l, rest, hd⟩ := hd
      simp [walk_zero_detour hd] at h
    · rw [walk_eq_advance fun l rest heq => hd ⟨l, rest, heq⟩] at h
      rw [walk_eq_advance fun l r => by rw [go h]; exact hgo l r, go h]
  | succ links ih =>
    by_cases hd : ∃ l rest, fs.advance true here xs = .ok (.detour l rest)
    · obtain ⟨l, rest, hd⟩ := hd
      rw [walk_succ_detour hd] at h
      have hd' : fs.advance followLast here (xs ++ ys) = .ok (.detour l (rest ++ ys)) := by
        rw [advance_append hys, hd]
      rw [walk_succ_detour hd', ih h]
    · rw [walk_eq_advance fun l rest heq => hd ⟨l, rest, heq⟩] at h
      rw [walk_eq_advance fun l r => by rw [go h]; exact hgo l r, go h]

private theorem advance_slash {l : Location} {rest : List String}
    (h : fs.advance true here xs = .ok (.detour l rest)) :
    fs.advance true here (xs ++ [""]) = .ok (.detour l (rest ++ [""])) := by
  rw [advance_append (List.cons_ne_nil "" []), h]

private theorem walk_of_slash_direct {links : Nat}
    (hd : ¬∃ l rest, fs.advance true here xs = .ok (.detour l rest))
    (h : fs.walk true links here (xs ++ [""]) = .ok (.directory d)) :
    fs.walk true links here xs = .ok (.directory d) := by
  have slash : fs.advance true here (xs ++ [""]) = _ := advance_append (List.cons_ne_nil "" [])
  rw [walk_eq_advance fun l rest heq => hd ⟨l, rest, heq⟩]
  cases hxs : fs.advance true here xs with
  | error e =>
    rw [hxs] at slash
    rw [walk_eq_advance (by simp [slash]), slash] at h
    cases h
  | ok halt =>
    cases halt with
    | detour l rest => exact absurd ⟨l, rest, hxs⟩ hd
    | directory d' =>
      have slash : fs.advance true here (xs ++ [""]) = .ok (.directory d') := by
        rw [slash, hxs]
        rfl
      rwa [walk_eq_advance (by simp [slash]), slash] at h
    | _ =>
      simp only [hxs, List.all_cons, List.all_nil] at slash
      rw [walk_eq_advance (by simp [slash]), slash] at h
      simp at h

theorem walk_of_slash {links : Nat}
    (h : fs.walk true links here (xs ++ [""]) = .ok (.directory d)) :
    fs.walk true links here xs = .ok (.directory d) := by
  induction links generalizing here xs with
  | zero =>
    by_cases hd : ∃ l rest, fs.advance true here xs = .ok (.detour l rest)
    · obtain ⟨l, rest, hd⟩ := hd
      simp [walk_zero_detour (advance_slash hd)] at h
    · exact walk_of_slash_direct hd h
  | succ links ih =>
    by_cases hd : ∃ l rest, fs.advance true here xs = .ok (.detour l rest)
    · obtain ⟨l, rest, hd⟩ := hd
      rw [walk_succ_detour (advance_slash hd)] at h
      rw [walk_succ_detour hd]
      exact ih h
    · exact walk_of_slash_direct hd h

/-- The way along a path leads to a directory. -/
def LeadsTo (fs : FileSystem) (p : Path) (d : Location) : Prop :=
  fs.walk true maxLinks [] p.parts = .ok (.directory d)

theorem LeadsTo.stem {p : Path} (h : fs.LeadsTo p d) :
    fs.walk true maxLinks [] p.stem = .ok (.directory d) := by
  rcases p.stem_append with heq | heq
  · rwa [LeadsTo, heq] at h
  · rw [LeadsTo, heq] at h
    exact walk_of_slash h

end Files.FileSystem

end Relocation
