/-!
Tables: finite maps kept as a list of entries with strictly ascending keys, so that two tables with
the same answers are equal and the entries are enumerated in key order. The main statements say
what a look-up finds after an insertion or a removal (`get?_insert`, `get?_erase`) and that look-ups
determine the table (`ext_get?`).
-/

set_option autoImplicit false

namespace Relocation

variable {κ α : Type}

def Ascending [Ord κ] (entries : List (κ × α)) : Prop :=
  entries.Pairwise fun a b => compare a.1 b.1 = .lt

/-- A finite map, enumerated in the order of its keys. -/
structure Table (κ α : Type) [Ord κ] where
  entries : List (κ × α)
  ascending : Ascending entries

namespace Table

section Entries

variable [Ord κ]

def find (k : κ) : List (κ × α) → Option α
  | [] => none
  | (l, v) :: rest => if compare k l = .eq then some v else find k rest

/-- Puts a value beside a key, in the place of the key's old value or at its rank. -/
def put (k : κ) (v : α) : List (κ × α) → List (κ × α)
  | [] => [(k, v)]
  | (l, w) :: rest =>
    match compare k l with
    | .lt => (k, v) :: (l, w) :: rest
    | .eq => (k, v) :: rest
    | .gt => (l, w) :: put k v rest

def drop (k : κ) (entries : List (κ × α)) : List (κ × α) :=
  entries.filter fun e => compare k e.1 != .eq

theorem mem_put {k : κ} {v : α} {entries : List (κ × α)} {e : κ × α} (h : e ∈ put k v entries) :
    e = (k, v) ∨ e ∈ entries := by
  induction entries with
  | nil => simp_all [put]
  | cons f rest ih =>
    obtain ⟨l, w⟩ := f
    unfold put at h
    split at h <;> simp only [List.mem_cons] at h ⊢ <;> grind

theorem ascending_put [Std.TransOrd κ] {entries : List (κ × α)} (h : Ascending entries)
    (k : κ) (v : α) : Ascending (put k v entries) := by
  induction entries with
  | nil => simp [Table.put, Ascending]
  | cons f rest ih =>
    obtain ⟨l, w⟩ := f
    have hr := List.pairwise_cons.1 h
    unfold Table.put
    split
    · rename_i hlt
      refine List.pairwise_cons.2 ⟨fun e he => ?_, h⟩
      rcases List.mem_cons.1 he with rfl | he
      · exact hlt
      · exact Std.TransCmp.lt_trans hlt (hr.1 e he)
    · rename_i heq
      exact List.pairwise_cons.2 ⟨fun e he => Std.TransCmp.lt_of_eq_of_lt heq (hr.1 e he), hr.2⟩
    · rename_i hgt
      refine List.pairwise_cons.2 ⟨fun e he => ?_, ih hr.2⟩
      rcases mem_put he with rfl | he
      · exact Std.OrientedCmp.lt_of_gt hgt
      · exact hr.1 e he

theorem ascending_drop {entries : List (κ × α)} (h : Ascending entries) (k : κ) :
    Ascending (drop k entries) := List.Pairwise.filter _ h

end Entries

variable [Ord κ]

def empty : Table κ α := ⟨[], List.Pairwise.nil⟩

instance : Inhabited (Table κ α) := ⟨empty⟩

def get? (t : Table κ α) (k : κ) : Option α := find k t.entries

def insert [Std.TransOrd κ] (t : Table κ α) (k : κ) (v : α) : Table κ α :=
  ⟨put k v t.entries, ascending_put t.ascending k v⟩

def erase (t : Table κ α) (k : κ) : Table κ α := ⟨drop k t.entries, ascending_drop t.ascending k⟩

def toList (t : Table κ α) : List (κ × α) := t.entries

def values (t : Table κ α) : List α := t.entries.map (·.2)

def filter (p : κ → α → Bool) (t : Table κ α) : Table κ α :=
  ⟨t.entries.filter fun e => p e.1 e.2, List.Pairwise.filter _ t.ascending⟩

/-- A table from entries in any order; the last entry of a key stays. -/
def ofList [Std.TransOrd κ] (entries : List (κ × α)) : Table κ α :=
  entries.foldl (fun t e => t.insert e.1 e.2) empty

@[simp] theorem get?_empty (k : κ) : (empty : Table κ α).get? k = none := rfl

private theorem find_put [Std.LawfulEqOrd κ] (k l : κ) (v : α) (entries : List (κ × α)) :
    find l (put k v entries) = if compare l k = .eq then some v else find l entries := by
  induction entries with
  | nil => simp [put, find]
  | cons f rest ih =>
    obtain ⟨m, w⟩ := f
    unfold put
    split
    · simp only [find]
    · rename_i h
      have : k = m := Std.LawfulEqOrd.eq_of_compare h
      subst this
      simp only [find]
      split <;> simp_all
    · rename_i h
      simp only [find, ih]
      by_cases hm : compare l m = .eq
      · have : l = m := Std.LawfulEqOrd.eq_of_compare hm
        subst this
        have hk : compare l k ≠ .eq := by
          intro e
          have : l = k := Std.LawfulEqOrd.eq_of_compare e
          subst this
          rw [hm] at h
          cases h
        simp [hk]
      · simp [hm]

private theorem find_drop [Std.LawfulEqOrd κ] (k l : κ) (entries : List (κ × α)) :
    find l (drop k entries) = if compare l k = .eq then none else find l entries := by
  induction entries with
  | nil => simp [drop, find]
  | cons f rest ih =>
    obtain ⟨m, w⟩ := f
    simp only [drop] at ih ⊢
    by_cases hkm : compare k m = .eq
    · have : k = m := Std.LawfulEqOrd.eq_of_compare hkm
      subst this
      rw [List.filter_cons_of_neg (by simp), ih]
      by_cases hl : compare l k = .eq <;> simp [hl, find]
    · rw [List.filter_cons_of_pos (by simp [hkm])]
      simp only [find, ih]
      by_cases hl : compare l k = .eq
      · have : l = k := Std.LawfulEqOrd.eq_of_compare hl
        subst this
        rw [if_neg hkm]
        simp
      · rw [if_neg hl, if_neg hl]

theorem get?_insert [Std.TransOrd κ] [Std.LawfulEqOrd κ] (t : Table κ α) (k l : κ) (v : α) :
    (t.insert k v).get? l = if compare l k = .eq then some v else t.get? l :=
  find_put k l v t.entries

@[simp] theorem get?_insert_self [Std.TransOrd κ] [Std.LawfulEqOrd κ] (t : Table κ α) (k : κ)
    (v : α) :
    (t.insert k v).get? k = some v := by simp [get?_insert]

theorem get?_insert_of_ne [Std.TransOrd κ] [Std.LawfulEqOrd κ] (t : Table κ α) {k l : κ} (v : α)
    (h : l ≠ k) :
    (t.insert k v).get? l = t.get? l := by
  rw [get?_insert, if_neg]
  exact fun e => h (Std.LawfulEqOrd.eq_of_compare e)

theorem get?_erase [Std.LawfulEqOrd κ] (t : Table κ α) (k l : κ) :
    (t.erase k).get? l = if compare l k = .eq then none else t.get? l := find_drop k l t.entries

@[simp] theorem get?_erase_self [Std.LawfulEqOrd κ] (t : Table κ α) (k : κ) :
    (t.erase k).get? k = none := by simp [get?_erase]

theorem get?_erase_of_ne [Std.LawfulEqOrd κ] (t : Table κ α) {k l : κ} (h : l ≠ k) :
    (t.erase k).get? l = t.get? l := by
  rw [get?_erase, if_neg]
  exact fun e => h (Std.LawfulEqOrd.eq_of_compare e)

private theorem find_eq_some_iff [Std.LawfulEqOrd κ] {entries : List (κ × α)}
    (h : Ascending entries) (k : κ) (v : α) : find k entries = some v ↔ (k, v) ∈ entries := by
  induction entries with
  | nil => simp [find]
  | cons f rest ih =>
    obtain ⟨m, w⟩ := f
    have hr := List.pairwise_cons.1 h
    simp only [find, List.mem_cons, Prod.mk.injEq]
    by_cases hkm : compare k m = .eq
    · have : k = m := Std.LawfulEqOrd.eq_of_compare hkm
      subst this
      have hnot : (k, v) ∉ rest := fun he => by
        have := hr.1 _ he
        simp at this
      simp [hnot, eq_comm]
    · have : k ≠ m := fun e => hkm (by subst e; simp)
      simp [hkm, this, ih hr.2]

theorem mem_toList_iff [Std.LawfulEqOrd κ] (t : Table κ α) (k : κ) (v : α) :
    (k, v) ∈ t.toList ↔ t.get? k = some v := (find_eq_some_iff t.ascending k v).symm

theorem get?_filter [Std.LawfulEqOrd κ] (t : Table κ α) (p : κ → α → Bool) (k : κ) :
    (t.filter p).get? k = (t.get? k).filter (p k) := by
  refine Option.ext fun v => ?_
  rw [← mem_toList_iff, Option.filter_eq_some_iff, ← mem_toList_iff]
  exact List.mem_filter

private theorem entries_ext [Std.TransOrd κ] [Std.LawfulEqOrd κ] :
    {xs ys : List (κ × α)} → Ascending xs →
    Ascending ys → (∀ e, e ∈ xs ↔ e ∈ ys) → xs = ys
  | [], [], _, _, _ => rfl
  | [], y :: ys, _, _, h => absurd ((h y).2 (by simp)) (by simp)
  | x :: xs, [], _, _, h => absurd ((h x).1 (by simp)) (by simp)
  | x :: xs, y :: ys, hx, hy, h => by
    have hx' := List.pairwise_cons.1 hx
    have hy' := List.pairwise_cons.1 hy
    have key : x = y := by
      rcases List.mem_cons.1 ((h x).1 (by simp)) with e | hm
      · exact e
      · rcases List.mem_cons.1 ((h y).2 (by simp)) with e | hn
        · exact e.symm
        · have a := hy'.1 x hm
          have b := hx'.1 y hn
          have c := Std.TransCmp.lt_trans a b
          simp at c
    subst key
    have tails : xs = ys := by
      refine entries_ext hx'.2 hy'.2 fun e => ⟨fun he => ?_, fun he => ?_⟩
      · rcases List.mem_cons.1 ((h e).1 (List.mem_cons_of_mem _ he)) with rfl | hm
        · have := hx'.1 e he
          simp at this
        · exact hm
      · rcases List.mem_cons.1 ((h e).2 (List.mem_cons_of_mem _ he)) with rfl | hm
        · have := hy'.1 e he
          simp at this
        · exact hm
    rw [tails]

/-- Look-ups determine a table. -/
theorem ext_get? [Std.TransOrd κ] [Std.LawfulEqOrd κ] {t u : Table κ α}
    (h : ∀ k, t.get? k = u.get? k) : t = u := by
  obtain ⟨xs, hx⟩ := t
  obtain ⟨ys, hy⟩ := u
  have : xs = ys := entries_ext hx hy fun ⟨k, v⟩ => by
    rw [← find_eq_some_iff hx, ← find_eq_some_iff hy]
    exact iff_of_eq (congrArg (· = some v) (h k))
  subst this
  rfl

end Table

end Relocation
