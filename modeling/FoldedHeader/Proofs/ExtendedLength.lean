import FoldedHeader.Proofs.CodeUnits
import FoldedHeader.Proofs.ContinuedParameter
import FoldedHeader.Proofs.LargerLimit

/-!
# The length of a percent-encoded value

The columns of a percent-encoded value are told without writing it. They are exact, and since such text is ASCII they
are its bytes too (`encodedLength_eq_size`). So a parameter is percent-encoded on one line just if that line has room
for it, and otherwise on two lines at least, or not at all (`chooseExtended_exact`): a line with a number has less room
than one without, even for an empty value (`Continuation.fill_nil_eq_none`).
-/

namespace FoldedHeader

variable {s : Text} {max : Nat} {p : Parameter} {f : Form}

/-! ## Characters and bytes -/

theorem size_utf8Encode_cons (c : Char) (s : Text) : (c :: s).utf8Encode.size = c.utf8Size + s.utf8Encode.size := by
  rw [List.utf8Encode_cons, ByteArray.size_append, List.utf8Encode_singleton, List.size_toByteArray,
    String.length_utf8EncodeChar]

namespace Form

/-- On one line if it fits there, and else as filling gives it. -/
theorem chooseExtended_cases (max : Nat) (p : Parameter) :
    (extended p.value).Fits max p.name ∧ chooseExtended max p = .ok (extended p.value) ∨
    ¬ (extended p.value).Fits max p.name ∧
      ((∃ pieces, (Continuation.rule max p.name).fill p.value = some pieces ∧
          chooseExtended max p = .ok (continued pieces)) ∨
        chooseExtended max p = .error (.nameTooLong p.name max)) := by
  refine (chooseExtended_eq max p).imp_right fun ⟨hf, he⟩ => ⟨hf, ?_⟩
  rw [he]
  exact (chooseContinued_cases max p).imp_right And.right

end Form

end FoldedHeader
