import Mathlib.Data.List.Nodup
import Relocation.Proofs.Json.Records

/-!
Merge patches. Every member of a patch that is an object takes the place of the member of its name:
a null takes the member away, an object is merged into it, and any other value replaces it. What a
patched object has under a name is said by `valueOf_mergeMembers`; a patch that fits leaves a value
that fits (`fits_merge`), and no name stands twice that did not before (`timesOf_mergeMembers`).
-/

set_option autoImplicit false

namespace Relocation.Json

def without (name : String) (ms : Parts) : Parts := ms.filter fun e => e.1 ≠ name

namespace Value

def isNull : Value → Bool
  | .null => true
  | _ => false

/-- The members of an object; other values have none. -/
def members : Value → Parts
  | .object ms => ms
  | _ => []

mutual

/-- A value after a merge patch. -/
def merge (target : Value) : (patch : Value) → Value
  | .object changes => .object (mergeMembers target.members changes)
  | patch => patch

/-- The members of an object after changes, one after the other. -/
def mergeMembers (before : Parts) : (changes : List (String × Value)) → Parts
  | [] => before
  | (name, change) :: rest =>
    mergeMembers
      (if change.isNull then without name before
        else without name before ++
          [(name, merge ((valueOf name before).getD .null) change)]) rest

end

end Value

section Members

variable {name other : String} {v : Value} {ms before changes : Parts}

theorem valueOf_without (name other : String) (ms : Parts) :
    valueOf other (without name ms) = if other = name then none else valueOf other ms := by
  induction ms with
  | nil => simp [without, valueOf]
  | cons e ms ih =>
    obtain ⟨k, v⟩ := e
    rw [without] at ih ⊢
    by_cases hk : k = name
    · rw [List.filter_cons_of_neg (by simp [hk]), ih, valueOf]
      by_cases hother : other = name
      · simp [hother]
      · have hne : k ≠ other := fun heq => hother (heq ▸ hk)
        simp only [hother, if_false, hne]
        cases valueOf other ms <;> rfl
    · rw [List.filter_cons_of_pos (by simp [hk]), valueOf, ih, valueOf]
      by_cases hother : other = name
      · have hne : k ≠ other := fun heq => hk (heq.trans hother)
        simp [hother, hk]
      · simp [hother]

theorem timesOf_append (name : String) (ms ms' : Parts) :
    timesOf name (ms ++ ms') = timesOf name ms + timesOf name ms' := by
  simp [timesOf]

theorem timesOf_without_self (name : String) (ms : Parts) : timesOf name (without name ms) = 0 := by
  refine List.count_eq_zero.2 fun hmem => ?_
  obtain ⟨e, he, heq⟩ := List.mem_map.1 hmem
  exact of_decide_eq_true (List.mem_filter.1 he).2 heq

theorem timesOf_without_le (name other : String) (ms : Parts) :
    timesOf other (without name ms) ≤ timesOf other ms :=
  (List.filter_sublist.map Prod.fst).count_le other

private def changed (name : String) (new : Option Value) (before : Parts) : Parts :=
  without name before ++ (new.map fun v => (name, v)).toList

private theorem mergeMembers_cons (name : String) (change : Value) (changes before : Parts) :
    Value.mergeMembers before ((name, change) :: changes) =
      Value.mergeMembers (changed name (if change.isNull then none
        else some (((valueOf name before).getD .null).merge change)) before) changes := by
  rw [Value.mergeMembers, changed]
  split <;> simp

private theorem valueOf_changed (new : Option Value) :
    valueOf other (changed name new before) =
      if other = name then new else valueOf other before := by
  rw [changed, valueOf_append, valueOf_without]
  by_cases h : other = name <;> cases new <;> simp [h, valueOf, Ne.symm]

private theorem timesOf_changed (new : Option Value) (h : timesOf other before ≤ 1) :
    timesOf other (changed name new before) ≤ 1 := by
  rw [changed, timesOf_append]
  by_cases hname : other = name
  · rw [hname, timesOf_without_self]
    cases new <;> simp [timesOf]
  · have hle := timesOf_without_le name other before
    have hnone : timesOf other (new.map fun v => (name, v)).toList = 0 := by
      cases new <;> simp [timesOf, Ne.symm hname]
    omega

private theorem mem_changed {new : Option Value} (h : (other, v) ∈ changed name new before) :
    (other ≠ name ∧ (other, v) ∈ before) ∨ (other = name ∧ new = some v) := by
  rw [changed, List.mem_append] at h
  rcases h with h | h
  · obtain ⟨hmem, hne⟩ := List.mem_filter.1 h
    exact .inl ⟨of_decide_eq_true hne, hmem⟩
  · cases new with
    | none => cases h
    | some w =>
      obtain ⟨rfl, rfl⟩ := Prod.mk.inj (List.mem_singleton.1 h)
      exact .inr ⟨rfl, rfl⟩

/-- Changes that name nothing twice each have their effect, and nothing else has one. -/
theorem valueOf_mergeMembers (name : String) (before : Parts)
    (hchanges : (changes.map Prod.fst).Nodup) :
    valueOf name (Value.mergeMembers before changes) = match valueOf name changes with
      | none => valueOf name before
      | some change => if change.isNull then none
        else some (((valueOf name before).getD .null).merge change) := by
  induction changes generalizing before with
  | nil => simp [Value.mergeMembers, valueOf]
  | cons e changes ih =>
    obtain ⟨k, change⟩ := e
    obtain ⟨hnot, hrest⟩ := List.nodup_cons.1 hchanges
    rw [mergeMembers_cons, ih _ hrest, valueOf_changed, valueOf]
    cases hlater : valueOf name changes with
    | none =>
      by_cases hname : name = k
      · simp [hname]
      · simp [hname, Ne.symm hname]
    | some later =>
      have hname : name ≠ k := by
        rintro rfl
        exact hnot (mem_names_of_valueOf hlater)
      rw [if_neg hname]

theorem timesOf_mergeMembers (h : timesOf name before ≤ 1) :
    timesOf name (Value.mergeMembers before changes) ≤ 1 := by
  induction changes generalizing before with
  | nil => simpa [Value.mergeMembers] using h
  | cons e changes ih =>
    obtain ⟨k, change⟩ := e
    rw [mergeMembers_cons]
    exact ih (timesOf_changed _ h)

/-- What stands in an object after changes stood there before, and nothing changed it, or it comes
of the change of its name. -/
theorem mem_mergeMembers (hchanges : (changes.map Prod.fst).Nodup)
    (h : (name, v) ∈ Value.mergeMembers before changes) :
    (valueOf name changes = none ∧ (name, v) ∈ before) ∨ ∃ change,
      valueOf name changes = some change ∧ change.isNull = false ∧
        v = ((valueOf name before).getD .null).merge change := by
  induction changes generalizing before with
  | nil => exact .inl ⟨rfl, by simpa [Value.mergeMembers] using h⟩
  | cons e changes ih =>
    obtain ⟨k, change⟩ := e
    obtain ⟨hnot, hrest⟩ := List.nodup_cons.1 hchanges
    rw [mergeMembers_cons] at h
    rcases ih hrest h with ⟨hnone, hmem⟩ | ⟨later, hlater, hnull, hv⟩
    · rcases mem_changed hmem with ⟨hname, hmem⟩ | ⟨rfl, hnew⟩
      · exact .inl ⟨by simp [valueOf, hnone, Ne.symm hname], hmem⟩
      · refine .inr ⟨change, by simp [valueOf, hnone], ?_⟩
        cases hnull : change.isNull with
        | true => simp [hnull] at hnew
        | false => exact ⟨rfl, by simpa [hnull, eq_comm] using hnew⟩
    · have hname : name ≠ k := by
        rintro rfl
        exact hnot (mem_names_of_valueOf hlater)
      rw [valueOf_changed, if_neg hname] at hv
      exact .inr ⟨later, by simp [valueOf, hlater], hnull, hv⟩

end Members

section Fits

variable {levels : Nat} {name : String} {before : Parts} {target patch : Value}

private theorem fits_valueOf (name : String) (hbefore : ∀ e ∈ before, e.2.Fits levels) :
    ((valueOf name before).getD .null).Fits levels := by
  cases h : valueOf name before with
  | none => exact .null
  | some v => exact hbefore _ (mem_of_valueOf h)

theorem fits_merge (htarget : target.Fits levels) (hpatch : patch.Fits levels) :
    (target.merge patch).Fits levels := by
  induction hpatch generalizing target with
  | @object levels changes hchanges ih =>
    have hbefore : ∀ e ∈ target.members, e.2.Fits levels := by
      cases htarget with
      | object hmembers => exact hmembers
      | _ => exact fun e he => nomatch he
    rw [Value.merge]
    refine .object ?_
    generalize target.members = before at hbefore
    induction changes generalizing before with
    | nil => simpa [Value.mergeMembers] using hbefore
    | cons e changes ihChanges =>
      obtain ⟨k, change⟩ := e
      rw [mergeMembers_cons]
      refine ihChanges (fun e he => hchanges e (by simp [he]))
        (fun e he => ih e (by simp [he])) _ ?_
      rintro ⟨name, v⟩ hmem
      rcases mem_changed hmem with ⟨-, hmem⟩ | ⟨-, hnew⟩
      · exact hbefore _ hmem
      · have hmerged := ih (k, change) (by simp) (fits_valueOf k hbefore)
        split at hnew
        · cases hnew
        · rwa [← Option.some.inj hnew]
  | null => exact .null
  | bool b => exact .bool b
  | int n exact => exact .int n exact
  | string s => exact .string s
  | array hitems => exact .array hitems

end Fits

section Tidy

variable {levels : Nat} {name : String} {v : Value}

private theorem names_entries (t : Table String Value) : (t.entries.map Prod.fst).Nodup := by
  refine List.pairwise_map.2 (t.ascending.imp fun {e e'} h heq => ?_)
  rw [heq] at h
  have hself : compare e'.1 e'.1 = .eq := Std.ReflCmp.compare_self
  exact nomatch hself.symm.trans h

private theorem valueOf_entries (t : Table String Value) (name : String) :
    valueOf name t.entries = t.get? name := by
  refine Option.ext fun v => ?_
  rw [← Table.mem_toList_iff]
  exact ⟨mem_of_valueOf, fun hmem => valueOf_of_mem hmem (List.nodup_iff_count_le_one.1
    (names_entries t) name)⟩

private theorem tidyMembers_entries (t : Table String Value) (ms : Parts) :
    ∃ t' : Table String Value, Value.tidyMembers t.entries ms = t'.entries ∧
      ∀ name, t'.get? name = ((valueOf name ms).map Value.tidy).or (t.get? name) := by
  induction ms generalizing t with
  | nil => exact ⟨t, by rw [Value.tidyMembers], fun name => rfl⟩
  | cons e ms ih =>
    obtain ⟨k, v⟩ := e
    obtain ⟨t', htidy, hget⟩ := ih (t.insert k v.tidy)
    refine ⟨t', by rw [Value.tidyMembers, ← htidy]; rfl, fun name => ?_⟩
    rw [hget name, valueOf]
    cases hlater : valueOf name ms with
    | some w => rfl
    | none =>
      by_cases hk : k = name
      · simp [hk]
      · simp [hk, Table.get?_insert_of_ne _ _ (Ne.symm hk)]

theorem tidy_object (ms : Parts) :
    ∃ ms', (Value.object ms).tidy = .object ms' ∧ (ms'.map Prod.fst).Nodup ∧
      ∀ name, valueOf name ms' = (valueOf name ms).map Value.tidy := by
  obtain ⟨t, htidy, hget⟩ := tidyMembers_entries .empty ms
  refine ⟨t.entries, by rw [Value.tidy, ← htidy]; rfl, names_entries t, fun name => ?_⟩
  rw [valueOf_entries, hget, Table.get?_empty, Option.or_none]

private theorem valueOf_filter (p : String → Bool) (ms : Parts) (name : String) :
    valueOf name (ms.filter fun e => p e.1) = if p name then valueOf name ms else none := by
  induction ms with
  | nil => simp [valueOf]
  | cons e ms ih =>
    obtain ⟨k, v⟩ := e
    by_cases hp : p k = true
    · rw [List.filter_cons_of_pos (by exact hp), valueOf, valueOf, ih]
      by_cases hk : k = name
      · simp [← hk, hp]
      · by_cases hname : p name = true <;> simp [hk, hname]
    · rw [List.filter_cons_of_neg (by exact hp), valueOf, ih]
      by_cases hk : k = name
      · simp [← hk, hp]
      · cases hlater : valueOf name ms <;> simp [hk]

theorem tidy_filter (p : String → Bool) (ms : Parts) :
    (Value.object (ms.filter fun e => p e.1)).tidy =
      .object ((Value.object ms).tidy.members.filter fun e => p e.1) := by
  obtain ⟨t, htidy, hget⟩ := tidyMembers_entries .empty ms
  obtain ⟨t', htidy', hget'⟩ := tidyMembers_entries .empty (ms.filter fun e => p e.1)
  have hsame : t' = t.filter fun name _ => p name := Table.ext_get? fun name => by
    rw [hget', Table.get?_filter, hget, valueOf_filter, Table.get?_empty, Option.or_none,
      Option.or_none]
    by_cases hp : p name = true <;> cases valueOf name ms <;> simp [hp, Option.filter]
  have hempty : (Table.empty : Table String Value).entries = [] := rfl
  rw [hempty] at htidy htidy'
  rw [Value.tidy, htidy', Value.tidy, htidy, hsame]
  rfl

theorem fits_tidy (h : v.Fits levels) : v.tidy.Fits levels := by
  induction h with
  | null => exact .null
  | bool b => exact .bool b
  | int n exact => exact .int n exact
  | string s => exact .string s
  | @array levels items hitems ih =>
    refine .array ?_
    clear hitems
    induction items with
    | nil => exact fun w hw => nomatch hw
    | cons v items ihItems =>
      intro w hw
      rcases List.mem_cons.1 hw with rfl | hw
      · exact ih v (by simp)
      · exact ihItems (fun u hu => ih u (by simp [hu])) w hw
  | @object levels members hmembers ih =>
    refine .object ?_
    have hbefore : ∀ e ∈ ([] : Parts), e.2.Fits levels := fun e he => nomatch he
    generalize ([] : Parts) = before at hbefore
    clear hmembers
    induction members generalizing before with
    | nil => simpa [Value.tidyMembers] using hbefore
    | cons e members ihMembers =>
      obtain ⟨k, v⟩ := e
      rw [Value.tidyMembers]
      refine ihMembers (fun e he => ih e (by simp [he])) _ fun e he => ?_
      rcases Table.mem_put he with rfl | he
      · exact ih (k, v) (by simp)
      · exact hbefore e he

end Tidy

end Relocation.Json
