import Relocation.Json.Decode
import Relocation.Json.Encode
import Relocation.Proofs.Json.RoundTrip

/-!
Records out of objects in which nothing is wrong. Such an object is accepted exactly when every
member that the record knows has a value that fits, and, unless the record is a loose one, stands
there once (`visit_ofMembers_eq_ok_iff`). What a field takes depends on the last value of its name
only (`take_ofMembers`).
-/

set_option autoImplicit false

namespace Relocation.Json

/-- The value of a name among members, the last one. -/
def valueOf (name : String) : Parts → Option Value
  | [] => none
  | (k, v) :: rest =>
    match valueOf name rest with
    | some w => some w
    | none => if k = name then some v else none

/-- How often a name stands among members. -/
def timesOf (name : String) (ms : Parts) : Nat := (ms.map Prod.fst).count name

section Members

variable {name : String} {v : Value} {ms ms' : Parts}

theorem lastOf_ofMembers (name : String) (ms : Parts) :
    lastOf name (Source.ofMembers ms) = (valueOf name ms).map Source.ofValue := by
  induction ms with
  | nil => rfl
  | cons e ms ih =>
    obtain ⟨k, v⟩ := e
    simp only [Source.ofMembers, lastOf, valueOf, ih]
    cases valueOf name ms with
    | some w => rfl
    | none => by_cases hk : k = name <;> simp [hk]

theorem mem_of_valueOf (h : valueOf name ms = some v) : (name, v) ∈ ms := by
  induction ms with
  | nil => cases h
  | cons e ms ih =>
    obtain ⟨k, w⟩ := e
    rw [valueOf] at h
    cases hrest : valueOf name ms with
    | some u =>
      rw [hrest] at h
      exact List.mem_cons_of_mem _ (ih (hrest.trans h))
    | none =>
      simp only [hrest, Option.ite_none_right_eq_some, Option.some.injEq] at h
      simp [h]

theorem mem_names_of_valueOf (h : valueOf name ms = some v) : name ∈ ms.map Prod.fst :=
  List.mem_map.2 ⟨_, mem_of_valueOf h, rfl⟩

theorem valueOf_append (name : String) (ms ms' : Parts) :
    valueOf name (ms ++ ms') = (valueOf name ms').or (valueOf name ms) := by
  induction ms with
  | nil => simp [valueOf]
  | cons e ms ih =>
    obtain ⟨k, v⟩ := e
    rw [List.cons_append, valueOf, ih, valueOf]
    cases valueOf name ms' <;> rfl

theorem timesOf_pos (h : (name, v) ∈ ms) : 0 < timesOf name ms :=
  List.count_pos_iff.2 (List.mem_map_of_mem h)

theorem valueOf_of_mem (hmem : (name, v) ∈ ms) (honce : timesOf name ms ≤ 1) :
    valueOf name ms = some v := by
  induction ms with
  | nil => cases hmem
  | cons e ms ih =>
    obtain ⟨k, w⟩ := e
    rw [timesOf, List.map_cons, List.count_cons] at honce
    rcases List.mem_cons.1 hmem with heq | hmem
    · obtain ⟨rfl, rfl⟩ := Prod.mk.inj heq
      have hnone : valueOf name ms = none := by
        cases hrest : valueOf name ms with
        | none => rfl
        | some u =>
          have hpos : 0 < (ms.map Prod.fst).count name := timesOf_pos (mem_of_valueOf hrest)
          simp at honce
          omega
      simp [valueOf, hnone]
    · have hrest := ih hmem (by rw [timesOf]; omega)
      rw [valueOf, hrest]

theorem fits_member {levels : Nat} (hv : v.Fits levels) : ∀ e ∈ member name v, e.2.Fits levels := by
  intro e he
  obtain rfl := List.mem_singleton.1 he
  exact hv

theorem fits_optionalMember {α : Type} {levels : Nat} {encode : α → Value} {o : Option α}
    (h : ∀ a, (encode a).Fits levels) : ∀ e ∈ optionalMember name encode o, e.2.Fits levels := by
  intro e he
  cases o with
  | none => cases he
  | some a =>
    obtain rfl := List.mem_singleton.1 he
    exact h a

end Members

namespace RecordForm

variable {α : Type} {form : RecordForm α} {ms : Parts} {x : α} {seen : List String}

/-- Whether a record accepts members after it has seen those of some names: the values of those that
it knows fit, and, unless it is a loose one, none of them stands twice. -/
structure Accepts (form : RecordForm α) (seen : List String) (ms : Parts) : Prop where
  check : ∀ name k, form.known.find? (·.name = name) = some k →
    ∀ v, (name, v) ∈ ms → k.check (.ofValue v) = .ok ()
  once : form.style ≠ .loose → ∀ name k, form.known.find? (·.name = name) = some k →
    timesOf name ms ≤ 1
  fresh : form.style ≠ .loose → ∀ name k, form.known.find? (·.name = name) = some k →
    name ∈ seen → timesOf name ms = 0

theorem other_ofValue (form : RecordForm α) (v : Value) : form.other (.ofValue v) = .ok () := by
  rw [other, Source.value_ofValue, Source.skip_ofValue]
  split <;> rfl

private theorem timesOf_cons (name k : String) (v : Value) (ms : Parts) :
    timesOf name ((k, v) :: ms) = timesOf name ms + if k = name then 1 else 0 := by
  rw [timesOf, List.map_cons, List.count_cons, timesOf]
  simp

private theorem accepts_cons_unknown {name : String} {v : Value}
    (hunknown : form.known.find? (·.name = name) = none) :
    form.Accepts seen ((name, v) :: ms) ↔ form.Accepts seen ms := by
  have hne {name' : String} {k : Known} (hk : form.known.find? (·.name = name') = some k) :
      name' ≠ name := by
    rintro rfl
    exact nomatch hk.symm.trans hunknown
  have htimes {name' : String} {k : Known} (hk : form.known.find? (·.name = name') = some k) :
      timesOf name' ((name, v) :: ms) = timesOf name' ms := by
    rw [timesOf_cons, if_neg (hne hk).symm, Nat.add_zero]
  constructor
  · exact fun h => ⟨fun name' k hk w hw => h.check name' k hk w (by simp [hw]),
      fun hstyle name' k hk => htimes hk ▸ h.once hstyle name' k hk,
      fun hstyle name' k hk hseen => htimes hk ▸ h.fresh hstyle name' k hk hseen⟩
  · refine fun h => ⟨fun name' k hk w hw => ?_,
      fun hstyle name' k hk => (htimes hk).symm ▸ h.once hstyle name' k hk,
      fun hstyle name' k hk hseen => (htimes hk).symm ▸ h.fresh hstyle name' k hk hseen⟩
    rcases List.mem_cons.1 hw with heq | hw
    · exact absurd (Prod.mk.inj heq).1 (hne hk)
    · exact h.check name' k hk w hw

private theorem accepts_cons_known {name : String} {v : Value} {k : Known}
    (hknown : form.known.find? (·.name = name) = some k) :
    form.Accepts seen ((name, v) :: ms) ↔ (form.style ≠ .loose → name ∉ seen) ∧
      k.check (.ofValue v) = .ok () ∧ form.Accepts (name :: seen) ms := by
  constructor
  · intro h
    have honce (hstyle : form.style ≠ .loose) : timesOf name ms = 0 := by
      have := h.once hstyle name k hknown
      rw [timesOf_cons, if_pos rfl] at this
      omega
    refine ⟨fun hstyle hseen => ?_, h.check name k hknown v (by simp),
      fun name' k' hk w hw => h.check name' k' hk w (by simp [hw]), fun hstyle name' k' hk => ?_,
      fun hstyle name' k' hk hseen => ?_⟩
    · have := h.fresh hstyle name k hknown hseen
      rw [timesOf_cons, if_pos rfl] at this
      omega
    · have := h.once hstyle name' k' hk
      rw [timesOf_cons] at this
      omega
    · rcases List.mem_cons.1 hseen with rfl | hseen
      · exact honce hstyle
      · have := h.fresh hstyle name' k' hk hseen
        rw [timesOf_cons] at this
        omega
  · rintro ⟨hfirst, hcheck, h⟩
    refine ⟨fun name' k' hk w hw => ?_, fun hstyle name' k' hk => ?_,
      fun hstyle name' k' hk hseen => ?_⟩
    · rcases List.mem_cons.1 hw with heq | hw
      · obtain ⟨rfl, rfl⟩ := Prod.mk.inj heq
        rwa [Option.some.inj (hk.symm.trans hknown)]
      · exact h.check name' k' hk w hw
    · rw [timesOf_cons]
      split
      · rename_i hname
        have := h.fresh hstyle name' k' hk (by simp [hname])
        omega
      · exact h.once hstyle name' k' hk
    · have hname : name ≠ name' := fun heq => hfirst hstyle (heq ▸ hseen)
      rw [timesOf_cons, if_neg hname]
      exact h.fresh hstyle name' k' hk (by simp [hseen])

/-- Members are visited without an error exactly when the record accepts them. -/
theorem visit_ofMembers_eq_ok_iff :
    form.visit seen (Source.ofMembers ms) = .ok () ↔ form.Accepts seen ms := by
  induction ms generalizing seen with
  | nil =>
    exact ⟨fun _ => ⟨fun _ _ _ _ hmem => (nomatch hmem), fun _ _ _ _ => Nat.zero_le 1,
      fun _ _ _ _ _ => rfl⟩, fun _ => rfl⟩
  | cons e ms ih =>
    obtain ⟨name, v⟩ := e
    rw [Source.ofMembers, visit]
    cases hknown : form.known.find? (·.name = name) with
    | none =>
      rw [other_ofValue, accepts_cons_unknown hknown]
      exact ih
    | some k =>
      rw [accepts_cons_known hknown, ← ih]
      by_cases hdup : form.style ≠ .loose ∧ name ∈ seen
      · simp [hdup]
      · have hfirst : form.style ≠ .loose → name ∉ seen := fun hstyle hmem => hdup ⟨hstyle, hmem⟩
        cases hcheck : k.check (.ofValue v) with
        | error e => simp [hdup, bind, Except.bind, hcheck]
        | ok u => simpa [hdup, bind, Except.bind, hcheck] using fun _ => hfirst

/-- An object is decoded exactly when the record accepts its members and can be built of them. -/
theorem decode_object_eq_ok_iff :
    form.decode (.ofValue (.object ms)) = .ok x ↔
      form.Accepts [] ms ∧ form.build (Source.ofMembers ms) = .ok x := by
  rw [← visit_ofMembers_eq_ok_iff, Source.ofValue, decode]
  cases form.visit [] (Source.ofMembers ms) with
  | error e => simp [bind, Except.bind]
  | ok u => simp [bind, Except.bind, onRead, liftFault, Except.mapError]

end RecordForm

section Fields

variable {α : Type} {f : Field α} {a : α} {ms ms' : Parts}

/-- What a field takes out of members depends on the last value of its name only. -/
theorem take_ofMembers (f : Field α) (ms : Parts) :
    f.take (Source.ofMembers ms) = match valueOf f.name ms with
      | some v => f.decode (.ofValue v)
      | none => match f.absent with
        | some a => .ok a
        | none => .error (.missing f.name) := by
  rw [Field.take, lastOf_ofMembers]
  cases valueOf f.name ms <;> rfl

theorem take_congr (h : valueOf f.name ms' = valueOf f.name ms) :
    f.take (Source.ofMembers ms') = f.take (Source.ofMembers ms) := by
  rw [take_ofMembers, take_ofMembers, h]

theorem take_of_valueOf {v : Value} (h : valueOf f.name ms = some v) :
    f.take (Source.ofMembers ms) = f.decode (.ofValue v) := by
  rw [take_ofMembers, h]

theorem take_of_absent (h : valueOf f.name ms = none) (habsent : f.absent = some a) :
    f.take (Source.ofMembers ms) = .ok a := by
  rw [take_ofMembers, h, habsent]

theorem check_of_take (h : f.take (Source.ofMembers ms) = .ok a) {v : Value}
    (hv : valueOf f.name ms = some v) : f.known.check (.ofValue v) = .ok () := by
  rw [take_of_valueOf hv] at h
  simp [Field.known, h, Except.map]

end Fields

end Relocation.Json
