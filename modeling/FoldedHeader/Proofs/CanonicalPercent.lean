import Mathlib.Data.List.Basic
import FoldedHeader.Proofs.PercentDecoding

/-!
# Canonical percent-encoded text

Percent-encoded text is canonical when its triplets have upper-case digits and none of them stands for an attribute
character, which would stand for itself (`Percent.Canonical`). There is one canonical text for each sequence of bytes:
each byte is written by itself, in the way that `encodeByte` says (`Canonical.eq_flatMap_encodeByte`). Encoding writes
the UTF-8 form of a text in this way (`encode_eq_flatMap_encodeByte`), so that it is one to one between texts and the
canonical texts of UTF-8 bytes (`canonical_encode_and_back`).
-/

namespace FoldedHeader.Percent

/-- The upper-case hexadecimal digits, each in the place of its value. -/
def upperDigits : Text := ['0', '1', '2', '3', '4', '5', '6', '7', '8', '9', 'A', 'B', 'C', 'D', 'E', 'F']

/-- Attribute characters, and triplets of upper-case digits none of which stands for an attribute character. -/
inductive Canonical : Text → Prop
  | nil : Canonical []
  | literal {c : Char} {t : Text} : isAttributeChar c = true → Canonical t → Canonical (c :: t)
  | triplet {a b : Nat} {h l : Char} {t : Text} : upperDigits[a]? = some h → upperDigits[b]? = some l →
      isAttributeChar (Char.ofNat (16 * a + b)) = false → Canonical t → Canonical ('%' :: h :: l :: t)

/-- A byte in canonical text. -/
def encodeByte (b : UInt8) : Text :=
  if isAttributeChar (Char.ofNat b.toNat) then [Char.ofNat b.toNat] else triplet b

/-! ## Digits and bytes -/

theorem upperDigits_eq_hexDigit : ∀ {n : Nat}, n < 16 → upperDigits[n]? = some (hexDigit n) := by
  decide

theorem hexDigit_of_upperDigits {n : Nat} {d : Char} (h : upperDigits[n]? = some d) : n < 16 ∧ d = hexDigit n := by
  have hn : n < 16 := (List.getElem?_eq_some_iff.mp h).1
  rw [upperDigits_eq_hexDigit hn, Option.some.injEq] at h
  exact ⟨hn, h.symm⟩

theorem triplet_ofNat {a b : Nat} (ha : a < 16) (hb : b < 16) :
    triplet (UInt8.ofNat (16 * a + b)) = ['%', hexDigit a, hexDigit b] := by
  have hn : (UInt8.ofNat (16 * a + b)).toNat = 16 * a + b := UInt8.toNat_ofNat_of_lt' (by simp [UInt8.size]; omega)
  rw [triplet, hn, show (16 * a + b) / 16 = a by omega, show (16 * a + b) % 16 = b by omega]

/-- The numbers that a byte can have are all code points. -/
theorem toNat_ofNat_of_lt {n : Nat} (h : n < 256) : (Char.ofNat n).toNat = n := by
  have hv : n.isValidChar := Or.inl (by omega)
  rw [Char.ofNat, dif_pos hv]
  rfl

theorem le_toNat_ofNat {n : Nat} (h : 128 ≤ n) (hlt : n < 256) : 128 ≤ (UInt8.ofNat n).toNat := by
  rwa [UInt8.toNat_ofNat_of_lt' hlt]

/-- The UTF-8 form of an ASCII character is one byte, and that of any other has no ASCII byte. -/
theorem utf8EncodeChar_cases (c : Char) :
    c.toNat < 128 ∧ String.utf8EncodeChar c = [UInt8.ofNat c.toNat] ∨
    128 ≤ c.toNat ∧ ∀ b ∈ String.utf8EncodeChar c, 128 ≤ b.toNat := by
  by_cases hc : c.toNat < 128
  · have hv : c.val.toNat ≤ 127 := Nat.le_of_lt_succ hc
    exact Or.inl ⟨hc, by rw [String.utf8EncodeChar, if_pos hv]; rfl⟩
  · have hv : ¬ c.val.toNat ≤ 127 := fun h => hc (Nat.lt_succ_of_le h)
    refine Or.inr ⟨Nat.le_of_not_lt hc, fun b hb => ?_⟩
    simp only [String.utf8EncodeChar, if_neg hv] at hb
    -- Two, three or four bytes, each with its top bit set.
    split at hb
    · simp only [List.mem_cons, List.not_mem_nil, or_false] at hb
      rcases hb with rfl | rfl <;> apply le_toNat_ofNat <;> omega
    · split at hb
      · simp only [List.mem_cons, List.not_mem_nil, or_false] at hb
        rcases hb with rfl | rfl | rfl <;> apply le_toNat_ofNat <;> omega
      · simp only [List.mem_cons, List.not_mem_nil, or_false] at hb
        rcases hb with rfl | rfl | rfl | rfl <;> apply le_toNat_ofNat <;> omega

/-- The character that an ASCII character's byte stands for. -/
theorem ofNat_toNat_of_ascii {c : Char} (h : c.toNat < 128) : Char.ofNat (UInt8.ofNat c.toNat).toNat = c := by
  rw [UInt8.toNat_ofNat_of_lt' (Nat.lt_trans h (by decide)), Char.ofNat_toNat]

theorem encodeByte_of_isAttributeChar {c : Char} (h : isAttributeChar c = true) :
    encodeByte (UInt8.ofNat c.toNat) = [c] := by
  have hc := toNat_lt_of_isAttributeChar h
  rw [encodeByte, ofNat_toNat_of_ascii hc, if_pos h]

/-- No byte beyond ASCII is that of an attribute character. -/
theorem encodeByte_of_le {b : UInt8} (h : 128 ≤ b.toNat) : encodeByte b = triplet b := by
  rw [encodeByte, if_neg]
  intro hattr
  have hlt := toNat_lt_of_isAttributeChar hattr
  rw [toNat_ofNat_of_lt b.toNat_lt] at hlt
  omega

/-! ## Encoding writes byte by byte -/

/-- A character that is no attribute character has no byte of one. -/
theorem encodeChar_eq_flatMap_encodeByte (c : Char) : encodeChar c = (String.utf8EncodeChar c).flatMap encodeByte := by
  rcases utf8EncodeChar_cases c with ⟨hc, hbytes⟩ | ⟨hc, hbytes⟩
  · rw [encodeChar, hbytes, List.flatMap_singleton, List.flatMap_singleton, encodeByte, ofNat_toNat_of_ascii hc]
  · have hattr : ¬ isAttributeChar c = true := fun h => by
      have := toNat_lt_of_isAttributeChar h
      omega
    rw [encodeChar, if_neg hattr]
    exact List.flatMap_congr fun b hb => (encodeByte_of_le (hbytes b hb)).symm

/-- **Encoding writes the bytes of the UTF-8 form one by one.** -/
theorem encode_eq_flatMap_encodeByte (v : Text) : encode v = (v.flatMap String.utf8EncodeChar).flatMap encodeByte := by
  induction v with
  | nil => rfl
  | cons c v ih =>
    rw [encode_cons, List.flatMap_cons, List.flatMap_append, ih, encodeChar_eq_flatMap_encodeByte]

/-! ## One canonical text for each sequence of bytes -/

/-- Canonical text stays so with a byte in front. -/
theorem Canonical.encodeByte_append {b : UInt8} {t : Text} (ht : Canonical t) : Canonical (encodeByte b ++ t) := by
  have hb := b.toNat_lt
  unfold encodeByte
  by_cases hattr : isAttributeChar (Char.ofNat b.toNat) = true
  · rw [if_pos hattr]
    exact .literal hattr ht
  · rw [if_neg hattr]
    refine .triplet (upperDigits_eq_hexDigit (by omega)) (upperDigits_eq_hexDigit (by omega)) ?_ ht
    rw [show 16 * (b.toNat / 16) + b.toNat % 16 = b.toNat by omega]
    exact Bool.eq_false_iff.mpr hattr

theorem canonical_flatMap_encodeByte (bs : List UInt8) : Canonical (bs.flatMap encodeByte) := by
  induction bs with
  | nil => exact .nil
  | cons b bs ih => exact ih.encodeByte_append

/-- **Canonical text is determined by its bytes.** -/
theorem Canonical.eq_flatMap_encodeByte {s : Text} (h : Canonical s) : s = (decodeBytes s).flatMap encodeByte := by
  induction h with
  | nil => rfl
  | @literal c t hc ht ih =>
    have hlt := toNat_lt_of_isAttributeChar hc
    have hbytes : String.utf8EncodeChar c = [UInt8.ofNat c.toNat] := by
      rcases utf8EncodeChar_cases c with ⟨_, hbytes⟩ | ⟨hle, _⟩
      · exact hbytes
      · omega
    rw [decodeBytes_cons_of_ne (ne_percent hc), hbytes, List.singleton_append, List.flatMap_cons,
      encodeByte_of_isAttributeChar hc, ← ih, List.singleton_append]
  | @triplet a b h l t ha hb hattr ht ih =>
    obtain ⟨ha', rfl⟩ := hexDigit_of_upperDigits ha
    obtain ⟨hb', rfl⟩ := hexDigit_of_upperDigits hb
    have hn : (UInt8.ofNat (16 * a + b)).toNat = 16 * a + b :=
      UInt8.toNat_ofNat_of_lt' (show 16 * a + b < 256 by omega)
    have htriplet : '%' :: hexDigit a :: hexDigit b :: t = Percent.triplet (UInt8.ofNat (16 * a + b)) ++ t := by
      rw [triplet_ofNat ha' hb']
      rfl
    have hbyte : encodeByte (UInt8.ofNat (16 * a + b)) = Percent.triplet (UInt8.ofNat (16 * a + b)) := by
      rw [encodeByte, hn, hattr]
      rfl
    rw [htriplet, decodeBytes_triplet, List.flatMap_cons, hbyte, ← ih]

/-- **Encoding is one to one between texts and the canonical texts of UTF-8 bytes.** What is written for a text is
canonical and has the bytes of its UTF-8 form; and a canonical text whose bytes are UTF-8 is read as a text for which it
is written again. -/
theorem canonical_encode_and_back :
    (∀ v : Text, Canonical (encode v) ∧ (decodeBytes (encode v)).toByteArray = v.utf8Encode) ∧
    ∀ s : Text, Canonical s → (decodeBytes s).toByteArray.IsValidUTF8 → ∃ v, decode s = some v ∧ encode v = s := by
  constructor
  · intro v
    refine ⟨?_, by rw [decodeBytes_encode]; rfl⟩
    rw [encode_eq_flatMap_encodeByte]
    exact canonical_flatMap_encodeByte _
  · rintro s hs ⟨v, hv⟩
    have hbytes : decodeBytes s = v.flatMap String.utf8EncodeChar := List.toByteArray_inj.mp hv
    refine ⟨v, by rw [decode, hbytes, ofUtf8?_utf8], ?_⟩
    rw [hs.eq_flatMap_encodeByte, encode_eq_flatMap_encodeByte, hbytes]

/-- The letters behind the triplets are not read as digits of theirs, and the last two triplets are one character. -/
theorem canonical_and_back_of_mixed :
    let s : Text := ['a', '%', '2', '0', 'A', 'B', '%', '2', '5', '%', 'C', '3', '%', 'A', '9']
    Canonical s ∧ ∃ v, decode s = some v ∧ encode v = s := by
  intro s
  have hs : Canonical s :=
    .literal (by decide) <| .triplet (a := 2) (b := 0) rfl rfl (by decide) <| .literal (by decide) <|
      .literal (by decide) <| .triplet (a := 2) (b := 5) rfl rfl (by decide) <|
      .triplet (a := 12) (b := 3) rfl rfl (by decide) <| .triplet (a := 10) (b := 9) rfl rfl (by decide) .nil
  have hv : (decodeBytes s).toByteArray.IsValidUTF8 := ⟨['a', ' ', 'A', 'B', '%', 'é'], by decide⟩
  exact ⟨hs, canonical_encode_and_back.2 s hs hv⟩

/-- A triplet for an attribute character is read, but never written. -/
example : decode ['%', '6', '1'] = some ['a'] ∧ encode ['a'] = ['a'] := by decide

end FoldedHeader.Percent
