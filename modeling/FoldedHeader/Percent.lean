import FoldedHeader.CharClass

/-!
# Percent-encoding of a parameter value

An attribute character stands for itself; any other character is written as one triplet, a percent sign and two
upper-case hexadecimal digits, for each byte of its UTF-8 form (`encodeChar`, `encode`). `charWidth` and
`encodedLength` tell the columns that this takes without writing it, and are exact (`length_encodeChar`,
`length_encode`).

`decode` reads such a text back: triplets in either case of their digits give bytes, all other characters give their
own UTF-8 bytes, and the bytes are then read as UTF-8. A triplet that is read gives its byte (`decodeBytes_triplet`).
-/

namespace FoldedHeader.Percent

/-! ## Writing -/

/-- The hexadecimal digit of `n`, upper-case; `n` is below 16. -/
def hexDigit (n : Nat) : Char := Char.ofNat (if n < 10 then 48 + n else 55 + n)

/-- A byte as a percent sign and its two digits. -/
def triplet (b : UInt8) : Text := ['%', hexDigit (b.toNat / 16), hexDigit (b.toNat % 16)]

/-- A character as it stands in an encoded value. -/
def encodeChar (c : Char) : Text :=
  if isAttributeChar c then [c] else (String.utf8EncodeChar c).flatMap triplet

/-- The encoded form of a text, character by character. -/
def encode (s : Text) : Text := s.flatMap encodeChar

/-- The columns that `encodeChar c` takes. -/
def charWidth (c : Char) : Nat := if isAttributeChar c then 1 else 3 * c.utf8Size

/-- The columns that `encode s` takes. -/
def encodedLength : (s : Text) → Nat
  | [] => 0
  | c :: s => charWidth c + encodedLength s

@[simp] theorem encode_nil : encode [] = [] := rfl

@[simp] theorem encode_cons (c : Char) (s : Text) : encode (c :: s) = encodeChar c ++ encode s := rfl

@[simp] theorem encode_append (s t : Text) : encode (s ++ t) = encode s ++ encode t := List.flatMap_append

@[simp] theorem encodedLength_nil : encodedLength [] = 0 := rfl

@[simp] theorem encodedLength_cons (c : Char) (s : Text) :
    encodedLength (c :: s) = charWidth c + encodedLength s := rfl

@[simp] theorem encodedLength_append : ∀ s t : Text, encodedLength (s ++ t) = encodedLength s + encodedLength t
  | [], t => by simp
  | c :: s, t => by simp [encodedLength_append s t, Nat.add_assoc]

@[simp] theorem length_triplet (b : UInt8) : (triplet b).length = 3 := rfl

theorem length_flatMap_triplet : ∀ bs : List UInt8, (bs.flatMap triplet).length = 3 * bs.length
  | [] => rfl
  | b :: bs => by
    rw [List.flatMap_cons, List.length_append, length_flatMap_triplet bs, length_triplet, List.length_cons]
    omega

@[simp] theorem length_encodeChar (c : Char) : (encodeChar c).length = charWidth c := by
  unfold encodeChar charWidth
  split
  · rfl
  · rw [length_flatMap_triplet, String.length_utf8EncodeChar]

/-- The length told in advance is the length written. -/
@[simp] theorem length_encode (s : Text) : (encode s).length = encodedLength s := by
  induction s with
  | nil => rfl
  | cons c s ih => simp [ih]

theorem charWidth_pos (c : Char) : 0 < charWidth c := by
  have := c.utf8Size_pos
  unfold charWidth
  split <;> omega

/-- No character takes more than twelve columns. -/
theorem charWidth_le (c : Char) : charWidth c ≤ 12 := by
  have := c.utf8Size_le_four
  unfold charWidth
  split <;> omega

/-! ## Reading -/

/-- The value of a hexadecimal digit of either case. -/
def hexValue? (c : Char) : Option Nat :=
  if '0' ≤ c && c ≤ '9' then some (c.toNat - 48)
  else if 'A' ≤ c && c ≤ 'F' then some (c.toNat - 55)
  else if 'a' ≤ c && c ≤ 'f' then some (c.toNat - 87)
  else none

/-- The bytes that a percent-encoded text stands for. A percent sign without two digits after it is itself. -/
def decodeBytes : Text → List UInt8
  | [] => []
  | '%' :: h :: l :: rest =>
    match hexValue? h, hexValue? l with
    | some a, some b => UInt8.ofNat (16 * a + b) :: decodeBytes rest
    | _, _ => 37 :: decodeBytes (h :: l :: rest)
  | c :: rest => String.utf8EncodeChar c ++ decodeBytes rest

/-- The text whose UTF-8 form is `bs`, if there is one. -/
def ofUtf8? (bs : List UInt8) : Option Text := bs.toByteArray.utf8Decode?.map Array.toList

/-- The text that a percent-encoded text stands for, if its bytes are UTF-8. -/
def decode (s : Text) : Option Text := ofUtf8? (decodeBytes s)

/-- UTF-8 is read back as the text it was made from. -/
theorem ofUtf8?_utf8 (s : Text) : ofUtf8? (s.flatMap String.utf8EncodeChar) = some s := by
  have h : (s.flatMap String.utf8EncodeChar).toByteArray = s.utf8Encode := rfl
  simp [ofUtf8?, h]

theorem hexValue?_hexDigit : ∀ {n : Nat}, n < 16 → hexValue? (hexDigit n) = some n := by
  decide

theorem decodeBytes_triplet (b : UInt8) (rest : Text) :
    decodeBytes (triplet b ++ rest) = b :: decodeBytes rest := by
  have hb := b.toNat_lt
  simp only [triplet, List.cons_append, List.nil_append, decodeBytes,
    hexValue?_hexDigit (show b.toNat / 16 < 16 by omega), hexValue?_hexDigit (show b.toNat % 16 < 16 by omega)]
  rw [show 16 * (b.toNat / 16) + b.toNat % 16 = b.toNat by omega, UInt8.ofNat_toNat]

end FoldedHeader.Percent
