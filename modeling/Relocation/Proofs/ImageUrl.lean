import Mathlib.Data.List.Basic
import Relocation.Settings

/-!
The address of an image tells whose image it is. A percent form can be read back
(`decodeBytes_encodeBytes`) and has no slash in it, so the two parts of the key stand apart in the
address and both can be read from it (`imageKey?_imageUrl`).
-/

set_option autoImplicit false

namespace Relocation

namespace Text.Percent

private theorem plain_byte {b : UInt8} (h : isPlain b = true) :
    (Char.ofNat b.toNat).toNat = b.toNat ∧ b.toNat < 128 ∧ b.toNat ≠ 37 ∧ b.toNat ≠ 47 := by
  have hchar : ∀ n < 128, (Char.ofNat n).toNat = n := by decide
  have hranges : (48 ≤ b.toNat ∧ b.toNat ≤ 57) ∨ (65 ≤ b.toNat ∧ b.toNat ≤ 90) ∨
      (97 ≤ b.toNat ∧ b.toNat ≤ 122) ∨ b.toNat = 45 ∨ b.toNat = 95 ∨ b.toNat = 46 ∨
      b.toNat = 126 := by
    simpa [isPlain, or_assoc] using h
  have hsmall : b.toNat < 128 := by omega
  exact ⟨hchar _ hsmall, hsmall, by omega, by omega⟩

private theorem hexValue_hexDigit {n : Nat} (h : n < 16) : hexValue? (hexDigit n) = some n := by
  revert n
  decide

private theorem hexDigit_ne_slash {n : Nat} (h : n < 16) : hexDigit n ≠ '/' := by
  revert n
  decide

private theorem decodeBytes_plain {c : Char} (hc : c ≠ '%') (hsmall : c.toNat < 128)
    (rest : List Char) :
    decodeBytes (c :: rest) = (decodeBytes rest).map (UInt8.ofNat c.toNat :: ·) := by
  have hnot : ¬(c = '%' ∨ 128 ≤ c.toNat) := by
    rintro (heq | hlarge)
    · exact hc heq
    · omega
  rw [decodeBytes, if_neg hnot]
  rintro hi lo rest' rfl
  exact absurd rfl hc

private theorem decodeBytes_encodeByte (b : UInt8) (rest : List Char) :
    decodeBytes (encodeByte b ++ rest) = (decodeBytes rest).map (b :: ·) := by
  have hbyte : b.toNat < 256 := b.toNat_lt
  cases hplain : isPlain b with
  | true =>
    obtain ⟨hchar, hsmall, hpercent, -⟩ := plain_byte hplain
    have hne : Char.ofNat b.toNat ≠ '%' := fun heq => hpercent (by rw [← hchar, heq]; rfl)
    rw [encodeByte, if_pos hplain, List.singleton_append,
      decodeBytes_plain hne (hchar.symm ▸ hsmall), hchar, UInt8.ofNat_toNat]
  | false =>
    have hhigh : b.toNat / 16 < 16 := by omega
    have hlow : b.toNat % 16 < 16 := by omega
    have hback : UInt8.ofNat (16 * (b.toNat / 16) + b.toNat % 16) = b := by
      rw [Nat.div_add_mod, UInt8.ofNat_toNat]
    rw [encodeByte, hplain, if_neg Bool.false_ne_true, List.cons_append, List.cons_append,
      List.cons_append, List.nil_append, decodeBytes, hexValue_hexDigit hhigh,
      hexValue_hexDigit hlow]
    cases decodeBytes rest with
    | none => rfl
    | some bytes => exact congrArg (fun b => some (b :: bytes)) hback

/-- What was written in percent form is read back. -/
theorem decodeBytes_encodeBytes (bytes : List UInt8) :
    decodeBytes (encodeBytes bytes) = some bytes := by
  induction bytes with
  | nil => rfl
  | cons b rest ih =>
    have hcons : encodeBytes (b :: rest) = encodeByte b ++ encodeBytes rest := List.flatMap_cons
    rw [hcons, decodeBytes_encodeByte, ih]
    rfl

private theorem slash_not_mem_encodeByte (b : UInt8) : '/' ∉ encodeByte b := by
  have hbyte : b.toNat < 256 := b.toNat_lt
  cases hplain : isPlain b with
  | true =>
    obtain ⟨hchar, -, -, hslash⟩ := plain_byte hplain
    rw [encodeByte, if_pos hplain, List.mem_singleton]
    intro heq
    rw [← heq] at hchar
    exact hslash hchar.symm
  | false =>
    have hhigh := hexDigit_ne_slash (show b.toNat / 16 < 16 by omega)
    have hlow := hexDigit_ne_slash (show b.toNat % 16 < 16 by omega)
    simp [encodeByte, hplain, hhigh.symm, hlow.symm]

theorem slash_not_mem_encode (s : String) : '/' ∉ (encode s).toList := by
  rw [encode, String.toList_ofList, encodeBytes, List.mem_flatMap]
  rintro ⟨b, -, hb⟩
  exact slash_not_mem_encodeByte b hb

theorem decode_encode (s : String) : decode (encode s) = some s := by
  have hbytes : (⟨(bytes s).toArray⟩ : ByteArray) = s.toByteArray := by
    rw [bytes, Array.toArray_toList]
    rfl
  rw [decode, encode, String.toList_ofList, decodeBytes_encodeBytes]
  show String.fromUTF8? ⟨(bytes s).toArray⟩ = some s
  rw [hbytes, String.fromUTF8?, dif_pos s.isValidUTF8]
  rfl

end Text.Percent

open Text.Percent

/-- The key that an address names: what is left of it without the base and `/images/` is two
percent forms around its only slash, the second of them before `.iso`. -/
def imageKey? (base url : String) : Option ObjectKey := do
  let rest ← url.toList.dropPrefix? (trimSlashes base ++ "/images/").toList
  match rest.splitOn '/' with
  | [space, file] =>
    let name ← file.dropSuffix? ".iso".toList
    return ⟨← decode (String.ofList space), ← decode (String.ofList name)⟩
  | _ => none

theorem imageKey?_imageUrl (base : String) (k : ObjectKey) :
    imageKey? base (imageUrl base k) = some k := by
  have hprefix : (imageUrl base k).toList.dropPrefix? (trimSlashes base ++ "/images/").toList =
      some ((encode k.space).toList ++ '/' :: ((encode k.name).toList ++ ".iso".toList)) := by
    rw [imageUrl]
    simp only [String.toList_append, List.append_assoc]
    rw [← List.append_assoc, List.dropPrefix?_append_of_beq _ (beq_self_eq_true _)]
    rfl
  -- A name may hold a slash or end in `.iso`: only its percent form is free of slashes, and only
  -- the last `.iso` is taken away.
  have hfile : '/' ∉ (encode k.name).toList ++ ".iso".toList := by
    rw [List.mem_append, not_or]
    exact ⟨slash_not_mem_encode k.name, by decide⟩
  have hsplit : ((encode k.space).toList ++ '/' ::
      ((encode k.name).toList ++ ".iso".toList)).splitOn '/' =
      [(encode k.space).toList, (encode k.name).toList ++ ".iso".toList] := by
    rw [List.splitOn_append_cons_self_of_not_mem (slash_not_mem_encode k.space),
      List.splitOn_eq_singleton hfile]
  have hsuffix : ((encode k.name).toList ++ ".iso".toList).dropSuffix? ".iso".toList =
      some (encode k.name).toList :=
    List.dropSuffix?_eq_some_iff.2 ⟨_, rfl, beq_self_eq_true _⟩
  rw [imageKey?, hprefix, Option.bind_eq_bind, Option.bind_some, hsplit]
  dsimp only
  rw [hsuffix, Option.bind_some, String.ofList_toList, String.ofList_toList, decode_encode,
    decode_encode]
  rfl

example : imageKey? "http://h/" "http://h/images/a%2Fb/c.iso.iso" = some ⟨"a/b", "c.iso"⟩ := by
  decide

theorem imageUrl_inj {base : String} {k k' : ObjectKey} :
    imageUrl base k = imageUrl base k' ↔ k = k' := by
  refine ⟨fun h => ?_, fun h => by rw [h]⟩
  have hread := congrArg (imageKey? base) h
  rw [imageKey?_imageUrl, imageKey?_imageUrl] at hread
  exact Option.some.inj hread

theorem trimSlashes_append (stem : String) (n : Nat) :
    trimSlashes (stem ++ String.ofList (List.replicate n '/')) = trimSlashes stem := by
  have hslashes : (List.replicate n '/').dropWhile (· = '/') = [] := by
    rw [List.dropWhile_replicate, if_pos (decide_eq_true rfl)]
  rw [trimSlashes, String.toList_append, String.toList_ofList, List.reverse_append,
    List.reverse_replicate, List.dropWhile_append, hslashes, List.isEmpty_nil, if_pos rfl]
  rfl

/-- The address of an image tells whose image it is, and slashes at the end of the base make no
difference to it. -/
theorem imageUrl_identifies (base : String) (k : ObjectKey) :
    (∀ k', imageUrl base k = imageUrl base k' → k = k') ∧
      imageKey? base (imageUrl base k) = some k ∧
      ∀ stem m n, imageUrl (stem ++ String.ofList (List.replicate m '/')) k =
        imageUrl (stem ++ String.ofList (List.replicate n '/')) k := by
  refine ⟨?_, imageKey?_imageUrl base k, ?_⟩
  · intro k' h
    exact imageUrl_inj.1 h
  · intro stem m n
    rw [imageUrl, imageUrl, trimSlashes_append, trimSlashes_append]

end Relocation
