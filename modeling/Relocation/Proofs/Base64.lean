import Mathlib.Data.List.Basic
import Relocation.Text.Base64

/-!
Base64 can be read back. A text is made of one symbol for each six bits and of padding that fills
the last group (`encodeBytes_eq`); the symbols are read as the numbers that they stand for, whether
they lie in the groups of eight or in the last group, and the numbers joined give the bytes
(`decode_encode`).
-/

set_option autoImplicit false

namespace Relocation.Text.Base64

def sextets : List UInt8 → List Nat
  | a :: b :: c :: rest =>
    let n := a.toNat * 65536 + b.toNat * 256 + c.toNat
    n / 262144 :: n / 4096 % 64 :: n / 64 % 64 :: n % 64 :: sextets rest
  | [a, b] =>
    let n := a.toNat * 1024 + b.toNat * 4
    [n / 4096, n / 64 % 64, n % 64]
  | [a] =>
    let n := a.toNat * 16
    [n / 64, n % 64]
  | [] => []

/-- How many padding signs follow the symbols of bytes. -/
def padding : List UInt8 → Nat
  | _ :: _ :: _ :: rest => padding rest
  | [_, _] => 1
  | [_] => 2
  | [] => 0

def symbolByte (n : Nat) : UInt8 := UInt8.ofNat (symbol n).toNat

section Writing

variable {bs : List UInt8}

theorem encodeBytes_eq (bs : List UInt8) :
    encodeBytes bs = (sextets bs).map symbol ++ List.replicate (padding bs) '=' := by
  fun_induction encodeBytes bs with
  | case1 a b c rest n ih => simp [sextets, padding, ih, n]
  | case2 a b n => simp [sextets, padding, n]
  | case3 a n => simp [sextets, padding, n]
  | case4 => rfl

theorem lt_of_mem_sextets {n : Nat} (h : n ∈ sextets bs) : n < 64 := by
  fun_induction sextets bs with
  | case1 a b c rest m ih =>
    have ha := a.toNat_lt
    have hb := b.toNat_lt
    have hc := c.toNat_lt
    simp only [List.mem_cons] at h
    rcases h with rfl | rfl | rfl | rfl | h
    · omega
    · omega
    · omega
    · omega
    · exact ih h
  | case2 a b m =>
    have ha := a.toNat_lt
    have hb := b.toNat_lt
    simp only [List.mem_cons, List.not_mem_nil, or_false] at h
    omega
  | case3 a m =>
    have ha := a.toNat_lt
    simp only [List.mem_cons, List.not_mem_nil, or_false] at h
    omega
  | case4 => cases h

theorem join_sextets (bs : List UInt8) : join (sextets bs) = bs := by
  fun_induction sextets bs with
  | case1 a b c rest m ih =>
    have ha := a.toNat_lt
    have hb := b.toNat_lt
    have hc := c.toNat_lt
    have hsum : m / 262144 * 262144 + m / 4096 % 64 * 4096 + m / 64 % 64 * 64 + m % 64 = m := by
      omega
    have hfirst : m / 65536 = a.toNat := by omega
    have hsecond : m / 256 % 256 = b.toNat := by omega
    have hthird : m % 256 = c.toNat := by omega
    simp only [join, hsum, hfirst, hsecond, hthird, ih, UInt8.ofNat_toNat]
  | case2 a b m =>
    have ha := a.toNat_lt
    have hb := b.toNat_lt
    have hsum : m / 4096 * 4096 + m / 64 % 64 * 64 + m % 64 = m := by omega
    have hfirst : m / 1024 = a.toNat := by omega
    have hsecond : m / 4 % 256 = b.toNat := by omega
    simp only [join, hsum, hfirst, hsecond, UInt8.ofNat_toNat]
  | case3 a m =>
    have ha := a.toNat_lt
    have hfirst : (m / 64 * 64 + m % 64) / 16 = a.toNat := by omega
    simp only [join, hfirst, UInt8.ofNat_toNat]
  | case4 => rfl

theorem last_group (bs : List UInt8) :
    ((sextets bs).length % 4 = 0 ∧ padding bs = 0) ∨
      ((sextets bs).length % 4 = 3 ∧ padding bs = 1 ∧ ∀ n, (sextets bs).getLast? = some n →
        n % 4 = 0) ∨
      ((sextets bs).length % 4 = 2 ∧ padding bs = 2 ∧ ∀ n, (sextets bs).getLast? = some n →
        n % 16 = 0) := by
  fun_induction sextets bs with
  | case1 a b c rest m ih =>
    simp only [List.length_cons, padding]
    have hlength : (sextets rest).length + 1 + 1 + 1 + 1 = (sextets rest).length + 4 := rfl
    have hlast (hne : sextets rest ≠ []) (n : Nat) :
        (m / 262144 :: m / 4096 % 64 :: m / 64 % 64 :: m % 64 :: sextets rest).getLast? = some n →
          (sextets rest).getLast? = some n := by
      intro h
      rwa [List.getLast?_cons_cons, List.getLast?_cons_cons, List.getLast?_cons_cons,
        List.getLast?_cons_of_ne_nil hne] at h
    have hnonempty {r : Nat} (hr : (sextets rest).length % 4 = r) (hpos : 0 < r) :
        sextets rest ≠ [] := by
      intro hnil
      rw [hnil, List.length_nil] at hr
      omega
    rw [hlength, Nat.add_mod_right]
    rcases ih with ih | ⟨h3, hpad, hbits⟩ | ⟨h2, hpad, hbits⟩
    · exact .inl ih
    · exact .inr (.inl ⟨h3, hpad, fun n hn =>
        hbits n (hlast (hnonempty h3 (by omega)) n hn)⟩)
    · exact .inr (.inr ⟨h2, hpad, fun n hn =>
        hbits n (hlast (hnonempty h2 (by omega)) n hn)⟩)
  | case2 a b m =>
    refine .inr (.inl ⟨rfl, rfl, fun n hn => ?_⟩)
    have hlast : m % 64 = n := Option.some.inj hn
    omega
  | case3 a m =>
    refine .inr (.inr ⟨rfl, rfl, fun n hn => ?_⟩)
    have hlast : m % 64 = n := Option.some.inj hn
    omega
  | case4 => exact .inl ⟨rfl, rfl⟩

end Writing

section Reading

variable {ns : List Nat} {offset index start pads : Nat}

private theorem symbolByte_read {n : Nat} (h : n < 64) :
    value? (symbolByte n) = some n ∧ symbolByte n ≠ pad ∧ (symbol n).toNat < 128 := by
  revert n
  decide

theorem bytes_ofList {cs : List Char} (h : ∀ c ∈ cs, c.toNat < 128) :
    bytes (String.ofList cs) = cs.map fun c => UInt8.ofNat c.toNat := by
  have hsingle : ∀ c ∈ cs, String.utf8EncodeChar c = [UInt8.ofNat c.toNat] := by
    intro c hc
    have hsmall := h c hc
    simp [String.utf8EncodeChar]
    omega
  have hbytes : bytes (String.ofList cs) = cs.flatMap String.utf8EncodeChar := by
    simp [bytes, String.toUTF8, List.utf8Encode]
  rw [hbytes, List.flatMap_congr hsingle, List.map_eq_flatMap]

private theorem values_symbols (h : ∀ n ∈ ns, n < 64) :
    values offset (ns.map symbolByte) = .ok ns := by
  induction ns generalizing offset with
  | nil => rfl
  | cons n ns ih =>
    rw [List.map_cons, values, (symbolByte_read (h n List.mem_cons_self)).1]
    simp only [ih fun m hm => h m (List.mem_cons_of_mem _ hm), Except.map]

private theorem tailValues_pads {first : Nat} (h : ∀ i < pads, 2 ≤ (index + i) % 4) :
    tailValues start index (some first) (List.replicate pads pad) = .ok ([], pads) := by
  induction pads generalizing index with
  | zero => rfl
  | succ pads ih =>
    have hhere : ¬index % 4 < 2 := by
      have := h 0 (Nat.succ_pos _)
      rw [Nat.add_zero] at this
      omega
    have hrest : tailValues start (index + 1) (some first) (List.replicate pads pad) =
        .ok ([], pads) := ih fun i hi => by
      have := h (i + 1) (Nat.succ_lt_succ hi)
      rwa [Nat.add_assoc, Nat.add_comm 1 i]
    rw [List.replicate_succ, tailValues, if_pos rfl, if_neg hhere, Option.getD_some, hrest]
    rfl

private theorem tailValues_symbols (h : ∀ n ∈ ns, n < 64)
    (hpads : ∀ i < pads, 2 ≤ (index + ns.length + i) % 4) :
    tailValues start index none (ns.map symbolByte ++ List.replicate pads pad) =
      .ok (ns, pads) := by
  induction ns generalizing index with
  | nil =>
    cases pads with
    | zero => rfl
    | succ pads =>
      have hhere : ¬index % 4 < 2 := by
        have := hpads 0 (Nat.succ_pos _)
        simp only [List.length_nil, Nat.add_zero] at this
        omega
      have hrest : tailValues start (index + 1) (some index) (List.replicate pads pad) =
          .ok ([], pads) := tailValues_pads fun i hi => by
        have := hpads (i + 1) (Nat.succ_lt_succ hi)
        rwa [List.length_nil, Nat.add_zero, Nat.add_comm i 1, ← Nat.add_assoc] at this
      rw [List.map_nil, List.nil_append, List.replicate_succ, tailValues, if_pos rfl,
        if_neg hhere, Option.getD_none, hrest]
      rfl
  | cons n ns ih =>
    obtain ⟨hvalue, hne, -⟩ := symbolByte_read (h n List.mem_cons_self)
    have hrest : tailValues start (index + 1) none
        (ns.map symbolByte ++ List.replicate pads pad) = .ok (ns, pads) :=
      ih (fun m hm => h m (List.mem_cons_of_mem _ hm)) fun i hi => by
        have := hpads i hi
        rw [List.length_cons] at this
        rwa [Nat.add_assoc index, Nat.add_comm 1]
    rw [List.map_cons, List.cons_append, tailValues, if_neg hne]
    simp only [hvalue, hrest, Except.map]

private theorem decodeTail_symbols (h : ∀ n ∈ ns, n < 64) (hempty : ns = [] → pads = 0)
    (hlength : ns ≠ [] → 2 ≤ ns.length) (hfour : (ns.length + pads) % 4 = 0) (hfew : pads ≤ 2)
    (hclean : cleanEnd ns = true) :
    decodeTail start (ns.map symbolByte ++ List.replicate pads pad) = .ok ns := by
  have htail : tailValues start 0 none (ns.map symbolByte ++ List.replicate pads pad) =
      .ok (ns, pads) := tailValues_symbols h fun i hi => by omega
  have henough : (!(ns.map symbolByte ++ List.replicate pads pad).isEmpty &&
      decide (ns.length < 2)) = false := by
    cases ns with
    | nil => simp [hempty rfl]
    | cons n ns =>
      have := hlength (by simp)
      simp only [List.length_cons] at this ⊢
      simp only [List.map_cons, List.cons_append, List.isEmpty_cons, Bool.not_false, Bool.true_and,
        decide_eq_false_iff_not]
      omega
  rw [decodeTail, htail]
  simp only [bind, Except.bind, henough, Bool.false_eq_true, if_false, hfour, ne_eq,
    not_true_eq_false, hclean, Bool.not_true]

end Reading

private theorem bytes_encode (bs : List UInt8) :
    bytes (encode bs) =
      (sextets bs).map symbolByte ++ List.replicate (padding bs) pad := by
  have hsmall : ∀ c ∈ encodeBytes bs, c.toNat < 128 := by
    intro c hc
    rw [encodeBytes_eq] at hc
    rcases List.mem_append.1 hc with hc | hc
    · obtain ⟨n, hn, rfl⟩ := List.mem_map.1 hc
      exact (symbolByte_read (lt_of_mem_sextets hn)).2.2
    · rw [List.eq_of_mem_replicate hc]
      decide
  rw [encode, bytes_ofList hsmall, encodeBytes_eq, List.map_append, List.map_map,
    List.map_replicate]
  rfl

private theorem cleanEnd_drop {bs : List UInt8} {start : Nat} (hstart : start % 4 = 0)
    (hle : start ≤ (sextets bs).length) : cleanEnd ((sextets bs).drop start) = true := by
  have hlength : ((sextets bs).drop start).length % 4 = (sextets bs).length % 4 := by
    rw [List.length_drop]
    omega
  rw [cleanEnd, hlength, List.getLast?_drop]
  rcases last_group bs with ⟨h0, -⟩ | ⟨h3, -, hbits⟩ | ⟨h2, -, hbits⟩
  · rw [h0]
    generalize (if (sextets bs).length ≤ start then none else (sextets bs).getLast?) = last
    cases last <;> rfl
  · have hlt : ¬(sextets bs).length ≤ start := by omega
    rw [h3, if_neg hlt]
    cases hlast : (sextets bs).getLast? with
    | none => rfl
    | some n => simp [hbits n hlast]
  · have hlt : ¬(sextets bs).length ≤ start := by omega
    rw [h2, if_neg hlt]
    cases hlast : (sextets bs).getLast? with
    | none => rfl
    | some n => simp [hbits n hlast]

/-- What was written is read. -/
theorem decode_encode (bs : List UInt8) : decode (encode bs) = .ok bs := by
  rw [decode, decodeBytes, bytes_encode]
  generalize hlength : ((sextets bs).map symbolByte ++
    List.replicate (padding bs) pad).length = length
  rw [List.length_append, List.length_map, List.length_replicate] at hlength
  have hgroup := last_group bs
  have hfour : length % 4 = 0 := by omega
  have hsmall : ∀ n ∈ sextets bs, n < 64 := fun n hn => lt_of_mem_sextets hn
  -- The last group has four or eight bytes, so all that stands before it are symbols.
  have hstart : (length - 1) / 8 * 8 ≤ (sextets bs).length := by omega
  have hfront : values 0 (((sextets bs).map symbolByte ++
      List.replicate (padding bs) pad).take ((length - 1) / 8 * 8)) =
        .ok ((sextets bs).take ((length - 1) / 8 * 8)) := by
    rw [List.take_append_of_le_length (by rwa [List.length_map]), ← List.map_take]
    exact values_symbols fun n hn => hsmall n (List.mem_of_mem_take hn)
  have hback : decodeTail ((length - 1) / 8 * 8) (((sextets bs).map symbolByte ++
      List.replicate (padding bs) pad).drop ((length - 1) / 8 * 8)) =
        .ok ((sextets bs).drop ((length - 1) / 8 * 8)) := by
    rw [List.drop_append_of_le_length (by rwa [List.length_map]), ← List.map_drop]
    have hdrop : ((sextets bs).drop ((length - 1) / 8 * 8)).length =
        (sextets bs).length - (length - 1) / 8 * 8 := List.length_drop
    refine decodeTail_symbols (fun n hn => hsmall n (List.mem_of_mem_drop hn)) ?_ ?_ ?_ ?_ ?_
    · intro hnil
      rw [hnil, List.length_nil] at hdrop
      omega
    · intro hne
      have hpos := List.length_pos_of_ne_nil hne
      omega
    · omega
    · omega
    · exact cleanEnd_drop (by omega) hstart
  rw [if_neg (by omega : ¬length % 4 = 1)]
  simp only [hfront, hback, bind, Except.bind, List.take_append_drop, join_sextets]
  rfl

end Relocation.Text.Base64
