import Mathlib.Data.List.Induction
import Relocation.Proofs.Files.Linkless
import Relocation.Proofs.Files.Removal
import Relocation.Proofs.Files.Stations

/-!
Trees without links in which everything stands in a directory. A way ends where its parts lead to
(`endsAt_resolve`), so making directories makes those on the way that were missing and nothing else
(`raised_makeDirs`).
-/

set_option autoImplicit false

namespace Relocation

namespace Files.FileSystem

variable {fs fs' fs'' : FileSystem} {followLast : Bool} {here l d : Location}
  {parts : List String} {p : Path} {mode : Nat} {content : String}

/-- Whether there are no links, and everything stands in a directory. -/
structure IsTree (fs : FileSystem) : Prop where
  linkless : fs.Linkless
  closed : ∀ l name, l ≠ [] → fs.entries.get? (l ++ [name]) ≠ none → fs.HasDir l

/-- Whether a location is the root or one of a directory. -/
def Enters (fs : FileSystem) (l : Location) : Prop := l = [] ∨ fs.HasDir l

theorem isTree_of_entries (h : fs.IsTree) (heq : fs'.entries = fs.entries) : fs'.IsTree where
  linkless := linkless_of_entries h.linkless heq
  closed := by
    unfold HasDir
    rw [heq]
    exact h.closed

theorem IsTree.enters_parent (h : fs.IsTree) (hl : fs.entries.get? l ≠ none) :
    fs.Enters l.dropLast := by
  rcases List.eq_nil_or_concat l with rfl | ⟨front, name, rfl⟩
  · exact .inl rfl
  · rw [List.concat_eq_append] at hl
    rw [List.concat_eq_append, List.dropLast_concat]
    by_cases hfront : front = []
    · exact .inl hfront
    · exact .inr (h.closed front name hfront hl)

theorem IsTree.enters_up (h : fs.IsTree) (hl : fs.Enters l) : fs.Enters l.dropLast := by
  rcases hl with rfl | ⟨mode, hdir⟩
  · exact .inl rfl
  · exact h.enters_parent (by simp [hdir])

theorem IsTree.above (h : fs.IsTree) (hl : fs.entries.get? l ≠ none) (hbelow : d <+: l)
    (hne : d ≠ l) (hd : d ≠ []) : fs.HasDir d := by
  obtain ⟨rest, rfl⟩ := hbelow
  induction rest using List.reverseRecOn with
  | nil => simp at hne
  | append_singleton rest name ih =>
    rw [← List.append_assoc] at hl
    obtain ⟨mode, hdir⟩ := h.closed (d ++ rest) name (by simp [hd]) hl
    by_cases hrest : rest = []
    · exact ⟨mode, by simpa [hrest] using hdir⟩
    · exact ih (by simp [hdir]) (by simp [hrest])

theorem isTree_place (h : fs.IsTree) {entry : Entry} (hlink : ∀ target, entry ≠ .link target)
    (hparent : fs.Enters l.dropLast)
    (hold : (∃ mode, entry = .directory mode) ∨ ¬fs.HasDir l) : (fs.place l entry).IsTree where
  linkless := linkless_place h.linkless hlink l
  closed l' name hl' hsome := by
    have hkept (hdir : fs.HasDir l') : (fs.place l entry).HasDir l' := by
      by_cases heq : l' = l
      · rcases hold with ⟨mode, rfl⟩ | hnot
        · exact ⟨mode, by rw [heq, place, Table.get?_insert_self]⟩
        · exact absurd (heq ▸ hdir) hnot
      · obtain ⟨mode, hget⟩ := hdir
        exact ⟨mode, by rwa [place, Table.get?_insert_of_ne _ _ heq]⟩
    by_cases hchild : l' ++ [name] = l
    · rw [← hchild, List.dropLast_concat] at hparent
      exact hkept (hparent.resolve_left hl')
    · rw [place, Table.get?_insert_of_ne _ _ hchild] at hsome
      exact hkept (h.closed l' name hl' hsome)

theorem isTree_erase (h : fs.IsTree) (hempty : ∀ name, fs.entries.get? (l ++ [name]) = none) :
    IsTree { fs with entries := fs.entries.erase l } where
  linkless l' target hget := by
    by_cases heq : l' = l
    · simp [heq] at hget
    · rw [Table.get?_erase_of_ne _ heq] at hget
      exact h.linkless l' target hget
  closed l' name hl' hsome := by
    have hchild : fs.entries.get? (l' ++ [name]) ≠ none := by
      by_cases heq : l' ++ [name] = l
      · simp [heq] at hsome
      · rwa [Table.get?_erase_of_ne _ heq] at hsome
    obtain ⟨mode, hget⟩ := h.closed l' name hl' hchild
    refine ⟨mode, ?_⟩
    rw [Table.get?_erase_of_ne _ fun heq => hchild (by rw [heq]; exact hempty name)]
    exact hget

section Ways

/-- What a way comes to in a tree: what stands where its parts lead to, or nothing in a directory,
or an error. -/
inductive EndsAt (fs : FileSystem) (here : Location) (parts : List String) :
    Except IoError Halt → Prop
  | directory : fs.Enters (lexical here parts) →
      EndsAt fs here parts (.ok (.directory (lexical here parts)))
  | file {inode mode : Nat} {content : String} :
      fs.entries.get? (lexical here parts) = some (.file inode mode content) →
      EndsAt fs here parts (.ok (.file (lexical here parts) inode mode content))
  | absent {slash : Bool} : fs.entries.get? (lexical here parts) = none →
      lexical here parts ∈ stations here parts → fs.Enters (lexical here parts).dropLast →
      EndsAt fs here parts (.ok (.absent (lexical here parts) slash))
  | error (e : IoError) : EndsAt fs here parts (.error e)

private theorem EndsAt.turn {here' : Location} {parts' : List String} {r : Except IoError Halt}
    (h : EndsAt fs here' parts' r) (hlexical : lexical here parts = lexical here' parts')
    (hstations : ∀ l ∈ stations here' parts', l ∈ stations here parts) :
    EndsAt fs here parts r := by
  cases h with
  | directory hdir =>
    rw [← hlexical] at hdir ⊢
    exact .directory hdir
  | file hfile =>
    rw [← hlexical] at hfile ⊢
    exact .file hfile
  | absent hnone hstation hparent =>
    have hmem := hstations _ hstation
    rw [← hlexical] at hnone hmem hparent ⊢
    exact .absent hnone hmem hparent
  | error e => exact .error e

private theorem lexical_empty (h : ∀ s ∈ parts, s = "") : lexical here parts = here := by
  induction parts with
  | nil => rfl
  | cons s rest ih =>
    rw [lexical_idle (.inl (h s List.mem_cons_self))]
    exact ih fun t ht => h t (List.mem_cons_of_mem s ht)

theorem endsAt_advance (h : fs.IsTree) (hhere : fs.Enters here) (parts : List String) :
    EndsAt fs here parts (fs.advance followLast here parts) := by
  have hway := way_advance fs followLast here parts
  generalize fs.advance followLast here parts = r at hway
  induction hway with
  | arrived => exact .directory hhere
  | idle idle _ ih =>
    exact (ih hhere).turn (lexical_idle idle) fun l hl => by rwa [stations_idle idle]
  | up _ ih =>
    exact (ih (h.enters_up hhere)).turn lexical_up fun l hl => by rwa [stations_up]
  | enter plain hget _ ih =>
    refine (ih (.inr ⟨_, hget⟩)).turn (lexical_name plain.not_idle plain.ne_dotdot) fun l hl => ?_
    rw [stations_name plain.not_idle plain.ne_dotdot]
    exact List.mem_cons_of_mem _ hl
  | @absent here name rest plain hget hall =>
    have hlexical : lexical here (name :: rest) = here ++ [name] := by
      rw [lexical_name plain.not_idle plain.ne_dotdot, lexical_empty hall]
    rw [← hlexical] at hget ⊢
    refine .absent hget ?_ (by rwa [hlexical, List.dropLast_concat])
    rw [hlexical, stations_name plain.not_idle plain.ne_dotdot]
    exact List.mem_cons_self
  | @file here name inode mode content plain hget =>
    have hlexical : lexical here [name] = here ++ [name] :=
      lexical_name plain.not_idle plain.ne_dotdot
    rw [← hlexical] at hget ⊢
    exact .file hget
  | link _ hget _ => exact absurd hget (h.linkless _ _)
  | detour _ hget _ => exact absurd hget (h.linkless _ _)
  | _ => exact .error _

theorem endsAt_resolve (h : fs.IsTree) (followLast : Bool) (p : Path) :
    EndsAt fs [] p.parts (fs.resolve followLast p) := by
  rw [resolve_linkless h.linkless]
  cases checkPath p with
  | error e => exact .error e
  | ok u => exact endsAt_advance h (.inl rfl) p.parts

private theorem stations_initial {xs ys : List String} (h : xs <+: ys) (hl : l ∈ stations [] xs) :
    l ∈ stations [] ys := by
  obtain ⟨rest, rfl⟩ := h
  rw [stations_append]
  exact List.mem_append_left _ hl

private theorem initial_trimSlashes (parts : List String) : trimSlashes parts <+: parts := by
  obtain ⟨tail, htail⟩ := trimSlashes_append parts
  exact ⟨tail, htail.symm⟩

theorem endsAt_resolveName (h : fs.IsTree) (p : Path) :
    EndsAt fs [] (trimSlashes p.parts) (fs.resolveName p) := by
  rw [resolveName]
  cases checkPath p with
  | error e => exact .error e
  | ok u =>
    have hway := way_advance fs false [] (trimSlashes p.parts)
    have hwalk : fs.walk false maxLinks [] (trimSlashes p.parts) =
        fs.advance false [] (trimSlashes p.parts) := walk_eq_advance (hway.ne_detour h.linkless)
    exact hwalk ▸ endsAt_advance h (.inl rfl) _

end Ways

section MakeDirs

/-- Directories were put where nothing stood, at some of the given places. -/
structure Raised (mode : Nat) (ways : List Location) (fs fs' : FileSystem) : Prop where
  tree : fs'.IsTree
  news : ∀ l, fs'.entries.get? l = fs.entries.get? l ∨
    l ∈ ways ∧ fs.entries.get? l = none ∧ fs'.entries.get? l = some (.directory mode)

variable {ways : List Location}

private theorem raised_refl (h : fs.IsTree) : Raised mode ways fs fs := ⟨h, fun _ => .inl rfl⟩

private theorem Raised.trans (h : Raised mode ways fs fs') (h' : Raised mode ways fs' fs'') :
    Raised mode ways fs fs'' where
  tree := h'.tree
  news l := by
    rcases h'.news l with hsame | ⟨hmem, hnone, hdir⟩
    · rw [hsame]
      exact h.news l
    · rcases h.news l with hsame' | ⟨-, -, hdir'⟩
      · exact .inr ⟨hmem, hsame'.symm.trans hnone, hdir⟩
      · rw [hdir'] at hnone
        cases hnone

private theorem raised_makeDir (h : fs.IsTree) (hways : ∀ l ∈ stations [] p.parts, l ∈ ways)
    (hmake : fs.makeDir mode p = .ok fs') : Raised mode ways fs fs' := by
  unfold makeDir at hmake
  split at hmake
  · have hends := endsAt_resolveName h p
    generalize fs.resolveName p = r at hmake hends
    cases hends with
    | absent hnone hstation hparent =>
      obtain rfl := Except.ok.inj hmake
      refine ⟨isTree_place h (by simp) hparent (.inl ⟨mode, rfl⟩), fun l => ?_⟩
      by_cases hl : l = lexical [] (trimSlashes p.parts)
      · rw [hl]
        exact .inr ⟨hways _ (stations_initial (initial_trimSlashes p.parts) hstation), hnone,
          Table.get?_insert_self _ _ _⟩
      · exact .inl (Table.get?_insert_of_ne _ _ hl)
    | directory _ => cases hmake
    | file _ => cases hmake
    | error e => cases hmake
  · cases hstat : fs.stat p <;> simp [hstat, bind, Except.bind] at hmake

private theorem raised_makeDirsAlong (h : fs.IsTree) (above : List Path)
    (hways : ∀ q ∈ p :: above, ∀ l ∈ stations [] q.parts, l ∈ ways) :
    Raised mode ways fs (makeDirsAlong mode p above fs).2 :=
  makeDirsAlong_keeps (fun fs fs' => fs.IsTree → Raised mode ways fs fs')
    (fun _ => raised_refl) (fun hfirst hlater h => (hfirst h).trans (hlater (hfirst h).tree))
    (fun q hq _ _ hmake h => raised_makeDir h (hways q hq) hmake) fs h

private theorem initial_trimParts (parts : List String) : trimParts parts <+: parts := by
  obtain ⟨tail, htail, -⟩ := trimParts_append parts
  exact ⟨tail, htail.symm⟩

private theorem initial_of_mem_ancestors {absolute : Bool} {fuel : Nat} {q : Path}
    (h : q ∈ ancestors absolute fuel parts) : q.parts <+: parts := by
  induction fuel generalizing parts with
  | zero => cases h
  | succ fuel ih =>
    rw [ancestors] at h
    have hup : trimParts (trimParts parts).dropLast <+: parts :=
      (initial_trimParts _).trans ((List.dropLast_prefix _).trans (initial_trimParts parts))
    split at h
    · cases h
    · rename_i up hne
      rcases List.mem_cons.1 h with rfl | h
      · exact hup
      · exact (ih h).trans hup

/-- Making directories puts directories at stations of the path where nothing stood. -/
theorem raised_makeDirs (h : fs.IsTree) (mode : Nat) (p : Path) :
    Raised mode (stations [] p.parts) fs (fs.makeDirs mode p).2 := by
  refine raised_makeDirsAlong h _ fun q hq l hl => ?_
  rcases List.mem_cons.1 hq with rfl | hq
  · exact hl
  · exact stations_initial (initial_of_mem_ancestors hq) hl

end MakeDirs

section Removals

theorem isTree_unlink (h : fs.IsTree) (hne : l ≠ []) (hunlink : fs.unlink l = .ok fs') :
    fs'.IsTree := by
  have hok := unlink_ok hunlink
  unfold unlink at hunlink
  split at hunlink
  · cases hunlink
  · cases hunlink
  · rename_i entry hnot hget
    subst hok
    refine isTree_erase h fun name => by_contra fun hchild => ?_
    obtain ⟨mode, hdir⟩ := h.closed l name hne hchild
    exact hnot mode (Option.some.inj (hget.symm.trans hdir))

theorem isTree_removeDir (h : fs.IsTree) (hremove : fs.removeDir l = .ok fs') : fs'.IsTree := by
  have hok := removeDir_ok hremove
  unfold removeDir at hremove
  split at hremove
  · cases hremove
  · split at hremove
    · cases hremove
    · rename_i hempty
      subst hok
      refine isTree_erase h fun name => ?_
      exact hasBelow_eq_false.1 (by simpa using hempty) _ (List.prefix_append l [name]) (by simp)
  · cases hremove

end Removals

end Files.FileSystem

end Relocation
