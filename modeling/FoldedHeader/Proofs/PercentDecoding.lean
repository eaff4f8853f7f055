import FoldedHeader.Percent

/-!
# Reading percent-encoded text back

Each encoded character is read as the bytes of its UTF-8 form, whatever stands behind it (`decodeBytes_encodeChar`), so
that a whole encoded text is read back (`decode_encode`). Encoded text has attribute characters and percent signs only
(`isAttributeChar_of_mem_encode`), all of them token characters.
-/

namespace FoldedHeader.Percent

theorem decodeBytes_flatMap_triplet (rest : Text) :
    ∀ bs : List UInt8, decodeBytes (bs.flatMap triplet ++ rest) = bs ++ decodeBytes rest
  | [] => rfl
  | b :: bs => by
    rw [List.flatMap_cons, List.append_assoc, decodeBytes_triplet, decodeBytes_flatMap_triplet rest bs,
      List.cons_append]

/-- A character other than a percent sign is read as its own bytes. -/
theorem decodeBytes_cons_of_ne {c : Char} (h : c ≠ '%') (rest : Text) :
    decodeBytes (c :: rest) = String.utf8EncodeChar c ++ decodeBytes rest := by
  rw [decodeBytes]
  intro _ _ _ hc
  exact absurd hc h

theorem ne_percent {c : Char} (h : isAttributeChar c = true) : c ≠ '%' := by
  rintro rfl
  exact absurd h (by decide)

/-- An encoded character is read as its bytes, whatever stands behind it. -/
theorem decodeBytes_encodeChar (c : Char) (rest : Text) :
    decodeBytes (encodeChar c ++ rest) = String.utf8EncodeChar c ++ decodeBytes rest := by
  unfold encodeChar
  split
  next h => exact decodeBytes_cons_of_ne (ne_percent h) rest
  · exact decodeBytes_flatMap_triplet rest _

theorem decodeBytes_encode (s : Text) : decodeBytes (encode s) = s.flatMap String.utf8EncodeChar := by
  induction s with
  | nil => rfl
  | cons c s ih => rw [encode_cons, decodeBytes_encodeChar, ih, List.flatMap_cons]

/-- **An encoded text is read back.** -/
theorem decode_encode (s : Text) : decode (encode s) = some s := by
  rw [decode, decodeBytes_encode, ofUtf8?_utf8]

/-! ## What encoded text is made of -/

theorem isAttributeChar_hexDigit : ∀ {n : Nat}, n < 16 → isAttributeChar (hexDigit n) = true := by
  decide

theorem isAttributeChar_of_mem_triplet {b : UInt8} {x : Char} (h : x ∈ triplet b) :
    isAttributeChar x = true ∨ x = '%' := by
  have hb := b.toNat_lt
  simp only [triplet, List.mem_cons, List.not_mem_nil, or_false] at h
  rcases h with rfl | rfl | rfl
  · exact Or.inr rfl
  · exact Or.inl (isAttributeChar_hexDigit (by omega))
  · exact Or.inl (isAttributeChar_hexDigit (by omega))

/-- Encoded text has attribute characters and percent signs only. -/
theorem isAttributeChar_of_mem_encode {s : Text} {x : Char} (h : x ∈ encode s) :
    isAttributeChar x = true ∨ x = '%' := by
  obtain ⟨c, _, hx⟩ := List.mem_flatMap.mp h
  unfold encodeChar at hx
  split at hx
  next hc => exact Or.inl (List.mem_singleton.mp hx ▸ hc)
  · obtain ⟨b, _, hb⟩ := List.mem_flatMap.mp hx
    exact isAttributeChar_of_mem_triplet hb

theorem isTokenChar_of_mem_encode {s : Text} {x : Char} (h : x ∈ encode s) : isTokenChar x = true := by
  rcases isAttributeChar_of_mem_encode h with hx | rfl
  · exact isTokenChar_of_isAttributeChar hx
  · decide

end FoldedHeader.Percent
