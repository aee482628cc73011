import Relocation.Files.Tree

/-!
Ways along paths: what each part of a path does to a way, as equations of `advance` and as a
relation with one rule for each turn that a way can take (`Way`), which proofs about ways go along.
-/

set_option autoImplicit false

namespace Relocation.Files

/-- A name under which something can stand in a directory. -/
structure Plain (name : String) : Prop where
  ne_empty : name ≠ ""
  ne_dot : name ≠ "."
  ne_dotdot : name ≠ ".."
  short : Text.byteCount name.toList ≤ maxName

instance (name : String) : Decidable (Plain name) :=
  decidable_of_iff
    (name ≠ "" ∧ name ≠ "." ∧ name ≠ ".." ∧ Text.byteCount name.toList ≤ maxName)
    ⟨fun ⟨h, h', h'', hs⟩ => ⟨h, h', h'', hs⟩,
      fun h => ⟨h.ne_empty, h.ne_dot, h.ne_dotdot, h.short⟩⟩

/-- A part of a path that leads nowhere else. -/
def Idle (name : String) : Prop := name = "" ∨ name = "."

theorem Plain.not_idle {name : String} (h : Plain name) : ¬Idle name :=
  fun idle => idle.elim h.ne_empty h.ne_dot

/-- A name that a directory cannot hold because of its length. -/
structure Overlong (name : String) : Prop where
  ne_empty : name ≠ ""
  ne_dot : name ≠ "."
  ne_dotdot : name ≠ ".."
  long : maxName < Text.byteCount name.toList

theorem part_cases (name : String) : Idle name ∨ name = ".." ∨ Overlong name ∨ Plain name := by
  by_cases h1 : name = ""
  · exact .inl (.inl h1)
  by_cases h2 : name = "."
  · exact .inl (.inr h2)
  by_cases h3 : name = ".."
  · exact .inr (.inl h3)
  by_cases h4 : maxName < Text.byteCount name.toList
  · exact .inr (.inr (.inl ⟨h1, h2, h3, h4⟩))
  · exact .inr (.inr (.inr ⟨h1, h2, h3, Nat.le_of_not_lt h4⟩))

namespace FileSystem

variable {fs : FileSystem} {followLast : Bool} {here : Location} {name : String}
  {rest : List String}

@[simp] theorem advance_nil : fs.advance followLast here [] = .ok (.directory here) := rfl

theorem advance_idle (h : Idle name) :
    fs.advance followLast here (name :: rest) = fs.advance followLast here rest := if_pos h

theorem advance_up :
    fs.advance followLast here (".." :: rest) = fs.advance followLast here.dropLast rest := by
  rw [advance, if_neg (by decide), if_pos rfl]

theorem advance_overlong (h : Overlong name) :
    fs.advance followLast here (name :: rest) = .error .nameTooLong := by
  have idle : ¬(name = "" ∨ name = ".") := by simp [h.ne_empty, h.ne_dot]
  rw [advance, if_neg idle, if_neg h.ne_dotdot, if_pos h.long]

/-- The way from a link on: its target, and then the rest of the way. -/
def detour (here : Location) (target : String) (rest : List String) : Halt :=
  .detour (if (Path.ofText target).absolute then [] else here) ((Path.ofText target).parts ++ rest)

private theorem advance_plain (h : Plain name) :
    fs.advance followLast here (name :: rest) =
      match fs.entries.get? (here ++ [name]) with
      | none =>
        if rest.all (· = "") then .ok (.absent (here ++ [name]) (!rest.isEmpty))
        else .error .notFound
      | some (.directory _) => advance fs followLast (here ++ [name]) rest
      | some (.file inode mode content) =>
        if rest.isEmpty then .ok (.file (here ++ [name]) inode mode content)
        else .error .notDirectory
      | some (.link target) =>
        if rest.isEmpty && !followLast then .ok (.link (here ++ [name]))
        else .ok (detour here target rest) := by
  have idle : ¬(name = "" ∨ name = ".") := by simp [h.ne_empty, h.ne_dot]
  rw [advance, if_neg idle, if_neg h.ne_dotdot, if_neg (Nat.not_lt.2 h.short)]
  rfl

theorem advance_none (h : Plain name) (hget : fs.entries.get? (here ++ [name]) = none) :
    fs.advance followLast here (name :: rest) =
      if rest.all (· = "") then .ok (.absent (here ++ [name]) (!rest.isEmpty))
      else .error .notFound := by
  rw [advance_plain h, hget]

theorem advance_directory (h : Plain name) {mode : Nat}
    (hget : fs.entries.get? (here ++ [name]) = some (.directory mode)) :
    fs.advance followLast here (name :: rest) = fs.advance followLast (here ++ [name]) rest := by
  rw [advance_plain h, hget]

theorem advance_file (h : Plain name) {inode mode : Nat} {content : String}
    (hget : fs.entries.get? (here ++ [name]) = some (.file inode mode content)) :
    fs.advance followLast here (name :: rest) =
      if rest.isEmpty then .ok (.file (here ++ [name]) inode mode content)
      else .error .notDirectory := by
  rw [advance_plain h, hget]

theorem advance_link (h : Plain name) {target : String}
    (hget : fs.entries.get? (here ++ [name]) = some (.link target)) :
    fs.advance followLast here (name :: rest) =
      if rest.isEmpty && !followLast then .ok (.link (here ++ [name]))
      else .ok (detour here target rest) := by
  rw [advance_plain h, hget]

/-- The turns that a way can take, and where it halts. -/
inductive Way (fs : FileSystem) (followLast : Bool) :
    Location → List String → Except IoError Halt → Prop
  | arrived {here : Location} : Way fs followLast here [] (.ok (.directory here))
  | idle {here : Location} {name : String} {rest : List String} {r : Except IoError Halt} :
      Idle name → Way fs followLast here rest r → Way fs followLast here (name :: rest) r
  | up {here : Location} {rest : List String} {r : Except IoError Halt} :
      Way fs followLast here.dropLast rest r → Way fs followLast here (".." :: rest) r
  | overlong {here : Location} {name : String} {rest : List String} :
      Overlong name → Way fs followLast here (name :: rest) (.error .nameTooLong)
  | absent {here : Location} {name : String} {rest : List String} :
      Plain name → fs.entries.get? (here ++ [name]) = none → (∀ s ∈ rest, s = "") →
      Way fs followLast here (name :: rest) (.ok (.absent (here ++ [name]) (!rest.isEmpty)))
  | lost {here : Location} {name : String} {rest : List String} :
      Plain name → fs.entries.get? (here ++ [name]) = none → ¬(∀ s ∈ rest, s = "") →
      Way fs followLast here (name :: rest) (.error .notFound)
  | enter {here : Location} {name : String} {rest : List String} {r : Except IoError Halt}
      {mode : Nat} :
      Plain name → fs.entries.get? (here ++ [name]) = some (.directory mode) →
      Way fs followLast (here ++ [name]) rest r → Way fs followLast here (name :: rest) r
  | file {here : Location} {name : String} {inode mode : Nat} {content : String} :
      Plain name → fs.entries.get? (here ++ [name]) = some (.file inode mode content) →
      Way fs followLast here [name] (.ok (.file (here ++ [name]) inode mode content))
  | blocked {here : Location} {name : String} {rest : List String} {inode mode : Nat}
      {content : String} :
      Plain name → fs.entries.get? (here ++ [name]) = some (.file inode mode content) →
      rest ≠ [] → Way fs followLast here (name :: rest) (.error .notDirectory)
  | link {here : Location} {name : String} {target : String} :
      Plain name → fs.entries.get? (here ++ [name]) = some (.link target) → followLast = false →
      Way fs followLast here [name] (.ok (.link (here ++ [name])))
  | detour {here : Location} {name : String} {rest : List String} {target : String} :
      Plain name → fs.entries.get? (here ++ [name]) = some (.link target) →
      (rest ≠ [] ∨ followLast = true) →
      Way fs followLast here (name :: rest) (.ok (detour here target rest))

theorem way_advance (fs : FileSystem) (followLast : Bool) (here : Location) (parts : List String) :
    Way fs followLast here parts (fs.advance followLast here parts) := by
  induction parts generalizing here with
  | nil => exact .arrived
  | cons name rest ih =>
    rcases part_cases name with idle | rfl | long | plain
    · rw [advance_idle idle]
      exact .idle idle (ih here)
    · rw [advance_up]
      exact .up (ih here.dropLast)
    · rw [advance_overlong long]
      exact .overlong long
    · cases hget : fs.entries.get? (here ++ [name]) with
      | none =>
        rw [advance_none plain hget]
        split
        · rename_i hall
          exact .absent plain hget (by simpa using hall)
        · rename_i hall
          exact .lost plain hget (by simpa using hall)
      | some entry =>
        cases entry with
        | directory mode =>
          rw [advance_directory plain hget]
          exact .enter plain hget (ih (here ++ [name]))
        | file inode mode content =>
          rw [advance_file plain hget]
          split
          · rename_i hrest
            obtain rfl : rest = [] := by simpa using hrest
            exact .file plain hget
          · rename_i hrest
            exact .blocked plain hget (by simpa using hrest)
        | link target =>
          rw [advance_link plain hget]
          split
          · rename_i hlast
            obtain ⟨rfl, rfl⟩ : rest = [] ∧ followLast = false := by simpa using hlast
            exact .link plain hget rfl
          · rename_i hlast
            refine .detour plain hget ?_
            by_cases hrest : rest = []
            · exact .inr (by simpa [hrest] using hlast)
            · exact .inl hrest

theorem walk_zero_detour {parts : List String} {l : Location} {r : List String}
    (h : fs.advance followLast here parts = .ok (.detour l r)) :
    fs.walk followLast 0 here parts = .error .tooManyLinks := by
  simp only [walk, h]

theorem walk_succ_detour {links : Nat} {parts : List String} {l : Location} {r : List String}
    (h : fs.advance followLast here parts = .ok (.detour l r)) :
    fs.walk followLast (links + 1) here parts = fs.walk followLast links l r := by
  simp only [walk, h]

theorem walk_eq_advance {links : Nat} {parts : List String}
    (h : ∀ l r, fs.advance followLast here parts ≠ .ok (.detour l r)) :
    fs.walk followLast links here parts = fs.advance followLast here parts := by
  cases links with
  | zero =>
    rw [walk]
    split
    · rename_i l r heq
      exact absurd heq (h l r)
    · rfl
  | succ links =>
    rw [walk]
    split
    · rename_i l r heq
      exact absurd heq (h l r)
    · rfl

theorem walk_ne_detour {links : Nat} {parts : List String} {l : Location} {r : List String} :
    fs.walk followLast links here parts ≠ .ok (.detour l r) := by
  induction links generalizing here parts with
  | zero =>
    rw [walk]
    split
    · simp
    · rename_i hne
      exact hne l r
  | succ links ih =>
    rw [walk]
    split
    · exact ih
    · rename_i hne
      exact hne l r

section LastPart

variable {p : Path} {front : List String} {last : String}

theorem trimSlashes_concat (h : last ≠ "") :
    trimSlashes (front ++ [last]) = front ++ [last] := by simp [trimSlashes, h]

theorem lastName_concat (hp : p.parts = front ++ [last]) (h : last ≠ "") :
    lastName p = last := by simp [lastName, hp, trimSlashes_concat h]

theorem named_concat (hparts : p.parts = front ++ [last]) (hlast : ¬Idle last)
    (hup : last ≠ "..") :
    endsInName p = true ∧ fs.resolveName p = fs.resolve false p := by
  have hne : last ≠ "" := fun h => hlast (.inl h)
  have hdot : last ≠ "." := fun h => hlast (.inr h)
  refine ⟨by simp [endsInName, lastName_concat hparts hne, hne, hdot, hup], ?_⟩
  rw [resolveName, resolve, hparts, trimSlashes_concat hne]

theorem trimParts_concat (hlast : ¬Idle last) :
    trimParts (front ++ [last]) = front ++ [last] := by
  have h : ¬(last = "" ∨ last = ".") := hlast
  simp [trimParts, h]

theorem ancestors_concat {absolute : Bool} {fuel : Nat} {front' : List String} {last' : String}
    (hlast : ¬Idle last) (hup : trimParts front = front' ++ [last']) :
    ancestors absolute (fuel + 1) (front ++ [last]) =
      ⟨absolute, front' ++ [last']⟩ :: ancestors absolute fuel (front' ++ [last']) := by
  rw [ancestors, trimParts_concat hlast, List.dropLast_concat, hup]
  split
  · rename_i heq
    simp at heq
  · rfl

end LastPart

end FileSystem

end Relocation.Files
