import Mathlib.Tactic.IntervalCases
import Relocation.Json.Reader
import Relocation.Json.Writer

/-!
What is written is read. The compact text of a value whose numbers are integers and that is not
nested too deeply reads back as that value, with nothing wrong in the text and nothing after it
(`read_text`). Integers and strings are read whatever follows them; of a value it matters only that
a comma or a closing bracket follows, or nothing.
-/

set_option autoImplicit false

namespace Relocation.Json

/-- Whether a text can carry a value: all its numbers are integers, and it has no more than so many
levels of nesting. -/
inductive Value.Fits : (levels : Nat) → Value → Prop
  | null {levels : Nat} : Fits levels .null
  | bool {levels : Nat} (b : Bool) : Fits levels (.bool b)
  | int {levels : Nat} (n : Int) (exact : IsExact n) : Fits levels (.number (.int n exact))
  | string {levels : Nat} (s : String) : Fits levels (.string s)
  | array {levels : Nat} {items : List Value} : (∀ v ∈ items, v.Fits levels) →
      Fits (levels + 1) (.array items)
  | object {levels : Nat} {members : List (String × Value)} : (∀ e ∈ members, e.2.Fits levels) →
      Fits (levels + 1) (.object members)

attribute [simp] Value.Fits.null Value.Fits.bool Value.Fits.int Value.Fits.string

@[simp] theorem Value.fits_nat {levels n : Nat} {h : n < 0x10000000000000000} :
    (Value.nat n h).Fits levels := .int _ _

@[simp] theorem Value.fits_array {levels : Nat} {items : List Value} :
    (Value.array items).Fits (levels + 1) ↔ ∀ v ∈ items, v.Fits levels :=
  ⟨fun | .array h => h, .array⟩

@[simp] theorem Value.fits_object {levels : Nat} {members : List (String × Value)} :
    (Value.object members).Fits (levels + 1) ↔ ∀ e ∈ members, e.2.Fits levels :=
  ⟨fun | .object h => h, .object⟩

/-- Whether a text goes on as it may after a value. -/
def EndsValue (rest : List Char) : Prop := ∀ c ∈ rest.head?, c = ',' ∨ c = ']' ∨ c = '\x7d'

section Integers

variable {rest : List Char} {n : Nat}

private def digitOf (c : Char) : Nat := c.toNat - 48

private theorem digit?_of_isDigit {c : Char} (h : c.isDigit = true) :
    Numeral.digit? c = some (digitOf c) := by
  have hbounds : 48 ≤ c.toNat ∧ c.toNat ≤ 57 := Char.isDigit_iff_toNat.1 h
  rw [Numeral.digit?, if_pos hbounds, digitOf]

private theorem digits_append {ds : List Char} (hds : ∀ c ∈ ds, c.isDigit = true)
    (hrest : EndsValue rest) : Numeral.digits (ds ++ rest) = (ds.map digitOf, rest) := by
  induction ds with
  | nil =>
    cases rest with
    | nil => rfl
    | cons c rest => rcases hrest c rfl with rfl | rfl | rfl <;> rfl
  | cons c ds ih =>
    rw [List.cons_append, Numeral.digits, digit?_of_isDigit (hds c (by simp)),
      ih fun d hd => hds d (by simp [hd])]
    rfl

private theorem ofDigits_toDigits (n : Nat) :
    Numeral.ofDigits ((Nat.toDigits 10 n).map digitOf) = n := by
  rw [Numeral.ofDigits, List.foldl_map]
  exact Nat.ofDigitChars_toDigits (by omega) (by omega)

private theorem toDigits_eq_cons (n : Nat) :
    ∃ c cs, Nat.toDigits 10 n = c :: cs ∧ (digitOf c = 0 → cs = []) := by
  induction n using Nat.strong_induction_on with
  | _ n ih =>
    rw [Nat.toDigits_eq_if (by omega)]
    split
    · exact ⟨_, [], rfl, fun _ => rfl⟩
    · obtain ⟨c, cs, hdigits, hzero⟩ := ih (n / 10) (by omega)
      refine ⟨c, cs ++ [(n % 10).digitChar], by rw [hdigits]; rfl, fun hc => ?_⟩
      -- Otherwise the digits before the last one would be a zero and no more.
      have hvalue := ofDigits_toDigits (n / 10)
      rw [hdigits, hzero hc] at hvalue
      simp [Numeral.ofDigits, hc] at hvalue
      omega

private theorem readWhole_toDigits (n : Nat) (hrest : EndsValue rest) :
    Numeral.readWhole (Nat.toDigits 10 n ++ rest) =
      .ok ((Nat.toDigits 10 n).map digitOf, rest) := by
  have hdigits : ∀ c ∈ Nat.toDigits 10 n, c.isDigit = true := fun c hc =>
    Nat.isDigit_of_mem_toDigits (by omega) (by omega) hc
  rw [Numeral.readWhole, digits_append hdigits hrest]
  obtain ⟨c, cs, hcons, hzero⟩ := toDigits_eq_cons n
  rw [hcons, List.map_cons]
  cases hc : digitOf c with
  | zero => simp [hzero hc]
  | succ d => rfl

private theorem readFraction_of_ends (hrest : EndsValue rest) :
    Numeral.readFraction rest = .ok (none, rest) := by
  cases rest with
  | nil => rfl
  | cons c rest => rcases hrest c rfl with rfl | rfl | rfl <;> rfl

private theorem readExponent_of_ends (hrest : EndsValue rest) :
    Numeral.readExponent rest = .ok (none, rest) := by
  cases rest with
  | nil => rfl
  | cons c rest => rcases hrest c rfl with rfl | rfl | rfl <;> rfl

private theorem sign_intChars (n : Int) (rest : List Char) :
    Numeral.sign (intChars n ++ rest) = (decide (n < 0), Nat.toDigits 10 n.natAbs ++ rest) := by
  unfold intChars
  split
  · rename_i hn
    simp [Numeral.sign, hn]
  · rename_i hn
    obtain ⟨c, cs, hcons, -⟩ := toDigits_eq_cons n.natAbs
    have hdigit : c.isDigit = true :=
      Nat.isDigit_of_mem_toDigits (b := 10) (n := n.natAbs) (by omega) (by omega) (by simp [hcons])
    rw [hcons, List.cons_append]
    have hne : c ≠ '-' := by
      rintro rfl
      cases hdigit
    simp [Numeral.sign, hn, hne]

theorem numberValue_intChars (n : Int) (exact : IsExact n) (hrest : EndsValue rest) :
    numberValue (intChars n ++ rest) = (.number (.int n exact), some rest) := by
  have hread : Numeral.read (intChars n ++ rest) =
      .ok (⟨decide (n < 0), (Nat.toDigits 10 n.natAbs).map digitOf, none, none⟩, rest) := by
    rw [Numeral.read, sign_intChars]
    simp only [readWhole_toDigits n.natAbs hrest, bind, Except.bind, readFraction_of_ends hrest,
      readExponent_of_ends hrest]
    rfl
  have hsize : (if decide (n < 0) = true then -(n.natAbs : Int) else n.natAbs) = n := by
    by_cases hn : n < 0
    · rw [decide_eq_true hn, if_pos rfl]
      omega
    · rw [decide_eq_false hn, if_neg Bool.false_ne_true]
      omega
  have hexact : Numeral.exactInt? (decide (n < 0)) n.natAbs = some (.int n exact) := by
    simp only [Numeral.exactInt?, hsize, dif_pos exact]
    rw [if_neg]
    rintro ⟨hneg, hzero⟩
    have hn : n < 0 := of_decide_eq_true hneg
    omega
  simp only [numberValue, hread, Numeral.number?, ofDigits_toDigits, hexact]

private theorem intChars_eq_cons (n : Int) :
    ∃ c cs, intChars n = c :: cs ∧ (c = '-' ∨ c.isDigit = true) := by
  unfold intChars
  split
  · exact ⟨_, _, rfl, .inl rfl⟩
  · obtain ⟨c, cs, hcons, -⟩ := toDigits_eq_cons n.natAbs
    exact ⟨c, cs, hcons, .inr (Nat.isDigit_of_mem_toDigits (b := 10) (n := n.natAbs) (by omega)
      (by omega) (by simp [hcons]))⟩

private theorem readValue_intChars {fuel depth : Nat} (n : Int) (exact : IsExact n)
    (hrest : EndsValue rest) :
    readValue (fuel + 1) depth (intChars n ++ rest) = (.number (.int n exact), some rest) := by
  rw [← numberValue_intChars n exact hrest]
  obtain ⟨c, cs, hcons, hc⟩ := intChars_eq_cons n
  have hne (d : Char) (hd : d.isDigit = false ∧ d ≠ '-') : c ≠ d := by
    rintro rfl
    rcases hc with rfl | hc
    · exact hd.2 rfl
    · exact Bool.false_ne_true (hd.1.symm.trans hc)
  have hstart : c = '-' ∨ (Numeral.digit? c).isSome = true :=
    hc.imp_right fun hc => by rw [digit?_of_isDigit hc]; rfl
  rw [hcons, List.cons_append, readValue]
  simp [skipSpace, hne ' ' (by decide), hne '\n' (by decide), hne '\t' (by decide),
    hne '\r' (by decide), hne '"' (by decide), hne '[' (by decide), hne '\x7b' (by decide),
    hne 'n' (by decide), hne 't' (by decide), hne 'f' (by decide), hstart]

end Integers

section Strings

variable {rest : List Char} {fuel : Nat}

private theorem hexValue?_hexDigit {d : Nat} (h : d < 16) : hexValue? (hexDigit d) = some d := by
  interval_cases d <;> rfl

private theorem escape_control {c : Char} (h : c.toNat < 32) :
    escape ('u' :: '0' :: '0' :: hexDigit (c.toNat / 16) :: hexDigit (c.toNat % 16) :: rest) =
      .ok (c, rest) := by
  have hhigh := hexValue?_hexDigit (by omega : c.toNat / 16 < 16)
  have hlow := hexValue?_hexDigit (by omega : c.toNat % 16 < 16)
  have hfour : hexFour ('0' :: '0' :: hexDigit (c.toNat / 16) :: hexDigit (c.toNat % 16) :: rest) =
      .ok (c.toNat, rest) := by
    have hzero : hexValue? '0' = some 0 := rfl
    simp only [hexFour, hzero, hhigh, hlow, Except.ok.injEq, Prod.mk.injEq, and_true]
    omega
  have hplain : ¬(0xdc00 ≤ c.toNat ∧ c.toNat ≤ 0xdfff) := by omega
  have hsingle : c.toNat < 0xd800 ∨ 0xdbff < c.toNat := by omega
  simp [escape, unicodeEscape, hfour, hplain, hsingle, bind, Except.bind, pure, Except.pure]

private theorem readString_escape {c : Char} {s : List Char} (h : escape s = .ok (c, rest)) :
    readString (fuel + 1) ('\\' :: s) =
      (readString fuel rest).map fun found => (c :: found.1, found.2) := by
  simp only [readString, if_neg (by decide : ('\\' : Char) ≠ '"'), if_pos, h, bind, Except.bind]
  cases readString fuel rest <;> rfl

private theorem readString_escaped (c : Char) :
    readString (fuel + 1) (escaped c ++ rest) =
      (readString fuel rest).map fun found => (c :: found.1, found.2) := by
  unfold escaped
  split_ifs with hquote hback hnewline hreturn htab hbackspace hfeed hcontrol
  · exact readString_escape (by simp [escape, simpleEscape?, hquote])
  · exact readString_escape (by simp [escape, simpleEscape?, hback])
  · exact readString_escape (by simp [escape, simpleEscape?, hnewline])
  · exact readString_escape (by simp [escape, simpleEscape?, hreturn])
  · exact readString_escape (by simp [escape, simpleEscape?, htab])
  · exact readString_escape (by simp [escape, simpleEscape?, hbackspace])
  · exact readString_escape (by simp [escape, simpleEscape?, hfeed])
  · exact readString_escape (escape_control hcontrol)
  · simp only [List.singleton_append, readString, if_neg hquote, if_neg hback, if_neg hcontrol]
    cases readString fuel rest <;> rfl

theorem readString_escaped_append {cs : List Char} (hfuel : cs.length < fuel) :
    readString fuel (cs.flatMap escaped ++ '"' :: rest) = .ok (cs, rest) := by
  induction cs generalizing fuel with
  | nil =>
    cases fuel with
    | zero => simp at hfuel
    | succ fuel => simp [readString]
  | cons c cs ih =>
    cases fuel with
    | zero => simp at hfuel
    | succ fuel =>
      rw [List.flatMap_cons, List.append_assoc, readString_escaped,
        ih (by simpa using hfuel)]
      rfl

private theorem length_stringChars (s : String) : s.toList.length + 2 ≤ (stringChars s).length := by
  have hescaped (cs : List Char) : cs.length ≤ (cs.flatMap escaped).length := by
    induction cs with
    | nil => simp
    | cons c cs ih =>
      have hone : 1 ≤ (escaped c).length := by
        unfold escaped
        split_ifs <;> simp
      rw [List.flatMap_cons, List.length_append, List.length_cons]
      omega
  have := hescaped s.toList
  simp only [stringChars, List.length_cons, List.length_append, List.length_nil]
  omega

end Strings

section Values

variable {depth fuel levels : Nat} {rest : List Char} {v : Value} {items : List Value}
  {members : List (String × Value)}

/-- Whether the text of a value reads back as it in front of whatever may follow a value. -/
private def ReadsBack (depth : Nat) (v : Value) : Prop :=
  ∀ fuel rest, 2 * v.chars.length ≤ fuel → EndsValue rest →
    readValue fuel depth (v.chars ++ rest) = (.ofValue v, some rest)

private theorem skipSpace_cons {c : Char} (h : c ≠ ' ' ∧ c ≠ '\n' ∧ c ≠ '\t' ∧ c ≠ '\r') :
    skipSpace (c :: rest) = c :: rest := by
  simp [skipSpace, h]

private theorem chars_eq_cons (h : v.Fits levels) :
    ∃ c cs, v.chars = c :: cs ∧ (c ≠ ' ' ∧ c ≠ '\n' ∧ c ≠ '\t' ∧ c ≠ '\r') ∧ c ≠ ']' := by
  cases h with
  | null => exact ⟨_, _, rfl, by decide, by decide⟩
  | bool b => cases b <;> exact ⟨_, _, rfl, by decide, by decide⟩
  | int n exact =>
    obtain ⟨c, cs, hcons, hc⟩ := intChars_eq_cons n
    refine ⟨c, cs, by rw [Value.chars, Number.chars, hcons], ⟨?_, ?_, ?_, ?_⟩, ?_⟩ <;>
    · rintro rfl
      revert hc
      decide
  | string s => exact ⟨_, _, rfl, by decide, by decide⟩
  | @array _ items _ => cases items <;> exact ⟨_, _, rfl, by decide, by decide⟩
  | @object _ members _ => cases members <;> exact ⟨_, _, rfl, by decide, by decide⟩

private theorem endsValue_itemsChars (items : List Value) (rest : List Char) :
    EndsValue (Value.itemsChars items ++ rest) := by
  cases items <;> simp [EndsValue, Value.itemsChars]

private theorem endsValue_membersChars (members : List (String × Value)) (rest : List Char) :
    EndsValue (Value.membersChars members ++ rest) := by
  cases members <;> simp [EndsValue, Value.membersChars]

private theorem readItem_chars (hv : ReadsBack depth v)
    (hitems : ∀ fuel, 2 * (Value.itemsChars items).length ≤ fuel →
      readItems fuel depth false (Value.itemsChars items ++ rest) =
        ((Source.ofItems items, none), some rest))
    (hfuel : 2 * v.chars.length ≤ fuel) (hfuel' : 2 * (Value.itemsChars items).length ≤ fuel) :
    readItem (fuel + 1) depth (v.chars ++ (Value.itemsChars items ++ rest)) =
      ((Source.ofItems (v :: items), none), some rest) := by
  rw [readItem, hv fuel _ hfuel (endsValue_itemsChars items rest)]
  simp only [hitems fuel hfuel', Source.ofItems]

private theorem readItems_chars (hitems : ∀ v ∈ items, ReadsBack depth v) :
    ∀ fuel, 2 * (Value.itemsChars items).length ≤ fuel →
      readItems fuel depth false (Value.itemsChars items ++ rest) =
        ((Source.ofItems items, none), some rest) := by
  induction items with
  | nil =>
    intro fuel hfuel
    obtain ⟨fuel, rfl⟩ : ∃ n, fuel = n + 1 := ⟨fuel - 1, by simp [Value.itemsChars] at hfuel; omega⟩
    simp [Value.itemsChars, readItems, skipSpace, Source.ofItems]
  | cons v items ih =>
    intro fuel hfuel
    simp only [Value.itemsChars, List.length_cons, List.length_append] at hfuel
    obtain ⟨fuel, rfl⟩ : ∃ n, fuel = n + 2 := ⟨fuel - 2, by omega⟩
    rw [Value.itemsChars, List.cons_append, readItems, skipSpace_cons (by decide),
      List.append_assoc]
    simp only [if_neg (by decide : (',' : Char) ≠ ']'), Bool.false_eq_true, if_false, if_true]
    exact readItem_chars (hitems v (by simp)) (ih fun w hw => hitems w (by simp [hw]))
      (by omega) (by omega)

private theorem readKey_chars {key : String} (hv : ReadsBack depth v)
    (hmembers : ∀ fuel, 2 * (Value.membersChars members).length ≤ fuel →
      readMembers fuel depth false (Value.membersChars members ++ rest) =
        ((Source.ofMembers members, none), some rest))
    (hkey : key.toList.length < fuel) (hfuel : 2 * v.chars.length ≤ fuel)
    (hfuel' : 2 * (Value.membersChars members).length ≤ fuel) :
    readKey (fuel + 2) depth (key.toList.flatMap escaped ++ '"' :: ':' ::
        (v.chars ++ (Value.membersChars members ++ rest))) =
      ((Source.ofMembers ((key, v) :: members), none), some rest) := by
  rw [readKey, readString_escaped_append (by omega)]
  simp only [readMember, skipSpace_cons (by decide : (':' : Char) ≠ ' ' ∧ _), expect, if_true,
    hv fuel _ hfuel (endsValue_membersChars members rest), hmembers fuel hfuel', Source.ofMembers,
    String.ofList_toList]

private theorem readMembers_chars (hmembers : ∀ e ∈ members, ReadsBack depth e.2) :
    ∀ fuel, 2 * (Value.membersChars members).length ≤ fuel →
      readMembers fuel depth false (Value.membersChars members ++ rest) =
        ((Source.ofMembers members, none), some rest) := by
  induction members with
  | nil =>
    intro fuel hfuel
    obtain ⟨fuel, rfl⟩ : ∃ n, fuel = n + 1 :=
      ⟨fuel - 1, by simp [Value.membersChars] at hfuel; omega⟩
    simp [Value.membersChars, readMembers, skipSpace, Source.ofMembers]
  | cons e members ih =>
    intro fuel hfuel
    obtain ⟨key, v⟩ := e
    have hkey := length_stringChars key
    simp only [Value.membersChars, List.length_cons, List.length_append] at hfuel
    obtain ⟨fuel, rfl⟩ : ∃ n, fuel = n + 3 := ⟨fuel - 3, by omega⟩
    rw [Value.membersChars, List.cons_append, readMembers, skipSpace_cons (by decide)]
    simp only [if_neg (by decide : (',' : Char) ≠ '\x7d'), Bool.false_eq_true, if_false, if_true,
      stringChars, List.cons_append, List.append_assoc, List.nil_append,
      skipSpace_cons (by decide : ('"' : Char) ≠ ' ' ∧ _)]
    exact readKey_chars (hmembers (key, v) (by simp)) (ih fun e he => hmembers e (by simp [he]))
      (by omega) (by omega) (by omega)

private theorem atDepth_of_lt {r : Reading Source} (h : depth < maxDepth) : atDepth depth r = r :=
  if_pos h

private theorem readsBack_array {items : List Value} (hitems : ∀ v ∈ items, v.Fits levels)
    (ih : ∀ v ∈ items, ReadsBack (depth + 1) v) (hdepth : depth < maxDepth) :
    ReadsBack depth (.array items) := by
  intro fuel rest hfuel hrest
  cases items with
  | nil =>
    simp only [Value.chars, List.length_cons, List.length_nil] at hfuel
    obtain ⟨fuel, rfl⟩ : ∃ n, fuel = n + 2 := ⟨fuel - 2, by omega⟩
    simp [Value.chars, readValue, skipSpace, readItems, atDepth_of_lt hdepth, Source.ofValue,
      Source.ofItems]
  | cons v items =>
    obtain ⟨c, cs, hcons, hspace, hbracket⟩ := chars_eq_cons (hitems v (by simp))
    simp only [Value.chars, List.length_cons, List.length_append] at hfuel
    have hlast : 0 < (Value.itemsChars items).length := by cases items <;> simp [Value.itemsChars]
    have hpos : 0 < v.chars.length := by simp [hcons]
    obtain ⟨fuel, rfl⟩ : ∃ n, fuel = n + 3 := ⟨fuel - 3, by omega⟩
    have hitem : readItem (fuel + 1) (depth + 1) (v.chars ++ (Value.itemsChars items ++ rest)) =
        ((Source.ofItems (v :: items), none), some rest) :=
      readItem_chars (ih v (by simp)) (readItems_chars fun w hw => ih w (by simp [hw])) (by omega)
        (by omega)
    rw [Value.chars, List.cons_append, readValue, skipSpace_cons (by decide)]
    simp only [if_neg (by decide : ('[' : Char) ≠ '"'), if_true, List.append_assoc]
    have hfirst : readItems (fuel + 2) (depth + 1) true
        (v.chars ++ (Value.itemsChars items ++ rest)) =
          ((Source.ofItems (v :: items), none), some rest) := by
      rw [readItems, hcons, List.cons_append, skipSpace_cons hspace]
      simp only [if_neg hbracket, if_true]
      rw [← List.cons_append, ← hcons, hitem]
    rw [hfirst, atDepth_of_lt hdepth, Source.ofValue]

private theorem readsBack_object {members : List (String × Value)}
    (ih : ∀ e ∈ members, ReadsBack (depth + 1) e.2) (hdepth : depth < maxDepth) :
    ReadsBack depth (.object members) := by
  intro fuel rest hfuel hrest
  cases members with
  | nil =>
    simp only [Value.chars, List.length_cons, List.length_nil] at hfuel
    obtain ⟨fuel, rfl⟩ : ∃ n, fuel = n + 2 := ⟨fuel - 2, by omega⟩
    simp [Value.chars, readValue, skipSpace, readMembers, atDepth_of_lt hdepth, Source.ofValue,
      Source.ofMembers]
  | cons e members =>
    obtain ⟨key, v⟩ := e
    have hkey := length_stringChars key
    simp only [Value.chars, List.length_cons, List.length_append] at hfuel
    obtain ⟨fuel, rfl⟩ : ∃ n, fuel = n + 4 := ⟨fuel - 4, by omega⟩
    rw [Value.chars, List.cons_append, readValue, skipSpace_cons (by decide)]
    simp only [if_neg (by decide : ('\x7b' : Char) ≠ '"'),
      if_neg (by decide : ('\x7b' : Char) ≠ '['), if_true, stringChars, List.cons_append,
      List.append_assoc, List.nil_append]
    have hfirst : readMembers (fuel + 3) (depth + 1) true ('"' :: (key.toList.flatMap escaped ++
        '"' :: ':' :: (v.chars ++ (Value.membersChars members ++ rest)))) =
          ((Source.ofMembers ((key, v) :: members), none), some rest) := by
      rw [readMembers, skipSpace_cons (by decide)]
      simp only [if_neg (by decide : ('"' : Char) ≠ '\x7d'), if_true]
      exact readKey_chars (ih (key, v) (by simp))
        (readMembers_chars fun e he => ih e (by simp [he])) (by omega) (by omega) (by omega)
    rw [hfirst, atDepth_of_lt hdepth, Source.ofValue]

/-- The text of a value that fits reads back as it. -/
private theorem readsBack (h : v.Fits levels) (hdepth : depth + levels ≤ maxDepth) :
    ReadsBack depth v := by
  induction h generalizing depth with
  | null =>
    intro fuel rest hfuel hrest
    obtain ⟨fuel, rfl⟩ : ∃ n, fuel = n + 1 := ⟨fuel - 1, by simp [Value.chars] at hfuel; omega⟩
    simp [Value.chars, readValue, skipSpace, wordValue, expect, Source.ofValue]
  | bool b =>
    intro fuel rest hfuel hrest
    obtain ⟨fuel, rfl⟩ : ∃ n, fuel = n + 1 :=
      ⟨fuel - 1, by cases b <;> simp [Value.chars] at hfuel <;> omega⟩
    cases b <;> simp [Value.chars, readValue, skipSpace, wordValue, expect, Source.ofValue]
  | int n exact =>
    intro fuel rest hfuel hrest
    obtain ⟨c, cs, hcons, -⟩ := intChars_eq_cons n
    simp only [Value.chars, Number.chars] at hfuel ⊢
    obtain ⟨fuel, rfl⟩ : ∃ n, fuel = n + 1 := ⟨fuel - 1, by simp [hcons] at hfuel; omega⟩
    exact readValue_intChars n exact hrest
  | string s =>
    intro fuel rest hfuel hrest
    have hlength := length_stringChars s
    simp only [Value.chars] at hfuel ⊢
    obtain ⟨fuel, rfl⟩ : ∃ n, fuel = n + 1 := ⟨fuel - 1, by omega⟩
    have hread : readString fuel (s.toList.flatMap escaped ++ '"' :: rest) = _ :=
      readString_escaped_append (by omega)
    rw [stringChars, List.cons_append, readValue, skipSpace_cons (by decide)]
    simp only [if_true, stringValue, List.append_assoc, List.singleton_append, hread,
      String.ofList_toList, Source.ofValue]
  | array hitems ih =>
    exact readsBack_array hitems (fun v hv => ih v hv (by omega)) (by omega)
  | object hmembers ih =>
    exact readsBack_object (fun e he => ih e he (by omega)) (by omega)

namespace Source

mutual

theorem value_ofValue : (v : Value) → (ofValue v).value = .ok v
  | .null | .bool _ | .number _ | .string _ => rfl
  | .array items => by
    rw [ofValue, value, itemValues_ofItems items]
    rfl
  | .object members => by
    rw [ofValue, value, memberValues_ofMembers members]
    rfl

theorem itemValues_ofItems : (items : List Value) → itemValues (ofItems items) = .ok items
  | [] => rfl
  | v :: items => by
    rw [ofItems, itemValues, value_ofValue v, itemValues_ofItems items]
    rfl

theorem memberValues_ofMembers :
    (members : List (String × Value)) → memberValues (ofMembers members) = .ok members
  | [] => rfl
  | (k, v) :: members => by
    rw [ofMembers, memberValues, value_ofValue v, memberValues_ofMembers members]
    rfl

end

mutual

theorem skip_ofValue : (v : Value) → (ofValue v).skip = .ok ()
  | .null | .bool _ | .number _ | .string _ => rfl
  | .array items => by
    rw [ofValue, skip, skipItems_ofItems items]
    rfl
  | .object members => by
    rw [ofValue, skip, skipMembers_ofMembers members]
    rfl

theorem skipItems_ofItems : (items : List Value) → skipItems (ofItems items) = .ok ()
  | [] => rfl
  | v :: items => by
    rw [ofItems, skipItems, skip_ofValue v]
    exact skipItems_ofItems items

theorem skipMembers_ofMembers :
    (members : List (String × Value)) → skipMembers (ofMembers members) = .ok ()
  | [] => rfl
  | (k, v) :: members => by
    rw [ofMembers, skipMembers, skip_ofValue v]
    exact skipMembers_ofMembers members

end

end Source

/-- The text of a value that fits reads back as it, and nothing stands after it. -/
theorem read_text (h : v.Fits maxDepth) : Document.read v.text = ⟨.ofValue v, none⟩ := by
  have hread := readsBack h (Nat.le_of_eq (Nat.zero_add _)) (4 * v.chars.length + 4) []
    (by omega) (by simp [EndsValue])
  rw [List.append_nil] at hread
  simp [Document.read, Value.text, hread, skipSpace]

theorem parse_text (h : v.Fits maxDepth) : Value.parse v.text = .ok v := by
  rw [Value.parse, read_text h, Document.value, Source.value_ofValue]
  rfl

end Values

end Relocation.Json
