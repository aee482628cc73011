import Mathlib.Data.Nat.Digits.Lemmas
import Relocation.Time.Timestamp

/-!
A moment of a year of four digits comes back out of its plain form: each part of the text is a
number with as many digits as its reader takes at most, so it ends where the next mark stands
(`number_padded`).
-/

set_option autoImplicit false

namespace Relocation.Time

section Numbers

variable {rest : List Char} {n width low high : Nat}

private def digitValue (c : Char) : Nat := c.toNat - 48

private theorem leadingDigits_append {ds : List Char} (h : ∀ c ∈ ds, c.isDigit = true) :
    leadingDigits ds.length (ds ++ rest) = (ds.map digitValue, rest) := by
  induction ds with
  | nil => cases rest <;> rfl
  | cons c ds ih =>
    have hc : digit? c = some (digitValue c) :=
      if_pos (Char.isDigit_iff_toNat.1 (h c List.mem_cons_self))
    rw [List.length_cons, List.cons_append, leadingDigits, hc,
      ih fun d hd => h d (List.mem_cons_of_mem _ hd)]
    rfl

private theorem isDigit_of_mem_padded {c : Char} (h : c ∈ padded width n) : c.isDigit = true := by
  rcases List.mem_append.1 h with h | h
  · rw [List.eq_of_mem_replicate h]
    rfl
  · exact Nat.isDigit_of_mem_toDigits (by omega) (by omega) h

private theorem length_padded (hpos : 0 < width) (h : n < 10 ^ width) :
    (padded width n).length = width := by
  have hle : (Nat.toDigits 10 n).length ≤ width := (Nat.length_toDigits_le_iff (by omega) hpos).2 h
  rw [padded, List.length_append, List.length_replicate, Nat.sub_add_cancel hle]

private theorem ofDigits_padded : ofDigits ((padded width n).map digitValue) = n := by
  have hzeros (zeros : Nat) : Nat.ofDigitChars 10 (List.replicate zeros '0') 0 = 0 := by
    induction zeros with
    | zero => rfl
    | succ zeros ih => exact ih
  calc ofDigits ((padded width n).map digitValue)
      = Nat.ofDigitChars 10 (padded width n) 0 := List.foldl_map
    _ = Nat.ofDigitChars 10 (Nat.toDigits 10 n) 0 := by
        rw [padded, Nat.ofDigitChars_append, hzeros]
    _ = n := Nat.ofDigitChars_toDigits (by omega) (by omega)

theorem number_padded (hpos : 0 < width) (h : n < 10 ^ width) (hsmall : n < 0x8000000000000000) :
    number width (padded width n ++ rest) = .ok (n, rest) := by
  have hlength := length_padded hpos h
  have hdigits : leadingDigits width (padded width n ++ rest) =
      ((padded width n).map digitValue, rest) := by
    have happend : leadingDigits (padded width n).length (padded width n ++ rest) =
        ((padded width n).map digitValue, rest) :=
      leadingDigits_append fun _ hc => isDigit_of_mem_padded hc
    rwa [hlength] at happend
  have hvalue : ofDigits ((padded width n).map digitValue) = n := ofDigits_padded
  have hne : (padded width n).map digitValue ≠ [] := by
    rw [← List.length_pos_iff, List.length_map, hlength]
    exact hpos
  rw [number, hdigits]
  cases hmap : (padded width n).map digitValue with
  | nil => exact absurd hmap hne
  | cons d ds => simp [← hmap, hvalue, hsmall]

private theorem padded_eq_cons (hpos : 0 < width) (h : n < 10 ^ width) :
    ∃ c cs, padded width n = c :: cs ∧ c.isDigit = true := by
  cases hpadded : padded width n with
  | nil =>
    have := length_padded hpos h
    rw [hpadded, List.length_nil] at this
    omega
  | cons c cs => exact ⟨c, cs, rfl, isDigit_of_mem_padded (hpadded ▸ List.mem_cons_self)⟩

private theorem skipBlanks_digit {c : Char} (h : c.isDigit = true) :
    skipBlanks (c :: rest) = c :: rest := by
  have hbounds : 48 ≤ c.toNat ∧ c.toNat ≤ 57 := Char.isDigit_iff_toNat.1 h
  have hblank : Text.isBlank c = false := by
    simp only [Text.isBlank, Bool.or_eq_false_iff, Bool.and_eq_false_iff, decide_eq_false_iff_not,
      beq_eq_false_iff_ne]
    omega
  rw [skipBlanks, List.dropWhile_cons_of_neg (by simp [hblank])]

theorem skipBlanks_padded (hpos : 0 < width) (h : n < 10 ^ width) :
    skipBlanks (padded width n ++ rest) = padded width n ++ rest := by
  obtain ⟨c, cs, hcons, hc⟩ := padded_eq_cons hpos h
  rw [hcons, List.cons_append, skipBlanks_digit hc]

theorem field_padded (h : n < 100) (hlow : low ≤ n) (hhigh : n ≤ high) :
    field low high (padded 2 n ++ rest) = .ok (n, rest) := by
  rw [field, skipBlanks_padded (by omega) h, number_padded (by omega) h (by omega)]
  exact if_pos ⟨hlow, hhigh⟩

theorem year_yearText {y : Int} (h : 0 ≤ y ∧ y ≤ 9999) :
    year (yearText y ++ rest) = .ok (y, rest) := by
  have hbound : y.toNat < 10 ^ 4 := by omega
  obtain ⟨c, cs, hcons, hc⟩ := padded_eq_cons (by omega) hbound
  have hskip : skipBlanks (padded 4 y.toNat ++ rest) = c :: (cs ++ rest) := by
    rw [skipBlanks_padded (by omega) hbound, hcons, List.cons_append]
  have hnumber : number 4 (c :: (cs ++ rest)) = .ok (y.toNat, rest) := by
    rw [← List.cons_append, ← hcons]
    exact number_padded (by omega) hbound (by omega)
  have hminus : c ≠ '-' := fun heq => by simp [heq] at hc
  have hplus : c ≠ '+' := fun heq => by simp [heq] at hc
  have hfits : (-0x80000000 : Int) ≤ y.toNat ∧ (y.toNat : Int) < 0x80000000 := by omega
  rw [yearText, if_pos h, year, hskip]
  split
  next heq => exact absurd (List.cons.inj heq).1 hminus
  next heq => exact absurd (List.cons.inj heq).1 hplus
  next =>
    simp only [hnumber, bind, Except.bind]
    rw [if_pos hfits, Int.toNat_of_nonneg h.1]

end Numbers

private theorem mark_cons (m : Char) (rest : List Char) (h : Text.isBlank m = false) :
    mark m (m :: rest) = .ok ((), rest) := by
  rw [mark, skipBlanks, List.dropWhile_cons_of_neg (by simp [h])]
  exact if_pos rfl

theorem Timestamp.ofLocal_utc (t : Timestamp) :
    ofLocal t.date t.hour t.minute t.second 0 = .ok t := by
  obtain ⟨date, hour, minute, second, valid⟩ := t
  have hvalid := valid
  simp only [isMoment, Bool.and_eq_true, decide_eq_true_eq] at hvalid
  obtain ⟨⟨⟨hdate, hhour⟩, hminute⟩, hsecond⟩ := hvalid
  have hpast : ¬((hour * 60 + minute : Nat) : Int) - 0 < 0 := by omega
  have hlate : ¬1440 ≤ ((hour * 60 + minute : Nat) : Int) - 0 := by omega
  have hclock : (((hour * 60 + minute : Nat) : Int) - 0) % 1440 = (hour * 60 + minute : Nat) := by
    omega
  have hhours : (hour * 60 + minute) / 60 = hour := by omega
  have hminutes : (hour * 60 + minute) % 60 = minute := by omega
  simp only [ofLocal, hdate, Bool.not_true, Bool.false_eq_true, if_false, hpast, hlate, hclock,
    Int.toNat_natCast, hhours, hminutes, valid, dif_pos]
  rfl

theorem Timestamp.parse_text (t : Timestamp) (h : 0 ≤ t.date.year ∧ t.date.year ≤ 9999) :
    parse t.text = .ok t := by
  have hvalid := t.valid
  simp only [isMoment, Day.exists, Bool.and_eq_true, decide_eq_true_eq] at hvalid
  obtain ⟨⟨⟨⟨⟨⟨⟨-, hmonth⟩, hmonth'⟩, hday⟩, hday'⟩, hhour⟩, hminute⟩, hsecond⟩ := hvalid
  have hdays : daysInMonth t.date.year t.date.month ≤ 31 := by
    unfold daysInMonth
    split_ifs <;> omega
  have hdash (rest : List Char) := mark_cons '-' rest (by decide)
  have hcolon (rest : List Char) := mark_cons ':' rest (by decide)
  have hseparator (rest : List Char) : separator ('T' :: rest) = .ok ((), rest) := by
    simp [separator]
  have hend : fraction ['Z'] = .ok ((), ['Z']) := rfl
  have hzone : zone (skipBlanks ['Z']) = .ok (0, []) := by decide
  simp only [parse, text, String.toList_ofList, List.append_assoc, List.cons_append]
  simp only [bind, Except.bind, year_yearText h, hdash, hcolon, hseparator,
    field_padded (show t.date.month < 100 by omega) hmonth hmonth',
    field_padded (show t.date.day < 100 by omega) hday (hday'.trans hdays),
    field_padded (show t.hour < 100 by omega) (Nat.zero_le _) (show t.hour ≤ 23 by omega),
    field_padded (show t.minute < 100 by omega) (Nat.zero_le _) (show t.minute ≤ 59 by omega),
    field_padded (show t.second < 100 by omega) (Nat.zero_le _) hsecond, hend, hzone]
  exact t.ofLocal_utc

end Relocation.Time
