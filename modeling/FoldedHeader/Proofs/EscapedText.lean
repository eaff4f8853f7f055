import FoldedHeader.Percent
import FoldedHeader.Proofs.Quoting

/-!
# The text between the quotes

Escaping treats each character by itself (`escapeChar`), so that the quoted-string of a quotable value is known without
asking whether it can be made (`quote_eq`). What stands between its quotes follows a grammar of its own, `Body`, in
which no quote and no backslash is without a backslash before it (`body_of_quote`).

No character takes more columns between quotes than percent-encoded, so neither does a value
(`length_flatMap_escapeChar_le`).
-/

namespace FoldedHeader.QuotedString

/-! ## Character by character -/

/-- A character of a quotable value as it stands between the quotes. -/
def escapeChar (c : Char) : Text := if c = '"' ∨ c = '\\' then ['\\', c] else [c]

/-- A visible character or white space is qtext or white space, the quote and the backslash apart. -/
theorem isQtext_or_isWsp_iff {c : Char} (h : isWsp c = true ∨ isVchar c = true) :
    (isQtext c = true ∨ isWsp c = true) ↔ ¬ (c = '"' ∨ c = '\\') := by
  constructor
  · rintro hq (rfl | rfl)
    · exact absurd hq (by decide)
    · exact absurd hq (by decide)
  · intro hne
    rcases h with hw | hv
    · exact Or.inr hw
    · exact Or.inl (by simpa [isQtext_eq, hv] using hne)

/-- The two characters that are escaped are visible. -/
theorem isVchar_of_escaped {c : Char} (h : c = '"' ∨ c = '\\') : isVchar c = true := by
  rcases h with rfl | rfl
  · decide
  · decide

/-- A quotable value is escaped character by character. -/
theorem escape_eq (name : Text) {s : Text} (h : isQuotable s = true) : escape name s = .ok (s.flatMap escapeChar) := by
  induction s with
  | nil => rfl
  | cons c s ih =>
    rw [isQuotable_cons_iff] at h
    simp only [escape, Bool.or_eq_true, isQtext_or_isWsp_iff h.1, ih h.2, List.flatMap_cons, escapeChar]
    by_cases hc : c = '"' ∨ c = '\\'
    · simp only [hc, isVchar_of_escaped hc, not_true_eq_false, if_false, if_true]
      rfl
    · simp only [hc, not_false_eq_true, if_false, if_true]
      rfl

/-- **The quoted-string of a quotable value.** -/
theorem quote_eq (name : Text) {s : Text} (h : isQuotable s = true) :
    quote name s = .ok ('"' :: s.flatMap escapeChar ++ ['"']) :=
  quote_eq_ok_iff.mpr ⟨_, escape_eq name h, rfl⟩

theorem quote_eq_ok_iff_isQuotable {name s q : Text} :
    quote name s = .ok q ↔ isQuotable s = true ∧ q = '"' :: s.flatMap escapeChar ++ ['"'] := by
  constructor
  · intro h
    have hq := (isQuotable_of_quote h).1
    rw [quote_eq name hq, Except.ok.injEq] at h
    exact ⟨hq, h.symm⟩
  · rintro ⟨hq, rfl⟩
    exact quote_eq name hq

/-! ## The grammar -/

/-- The text between the quotes: qtext and white space as they are, the quote and the backslash behind a backslash. -/
inductive Body : Text → Prop
  | nil : Body []
  | plain {c : Char} {t : Text} : isQtext c = true ∨ isWsp c = true → Body t → Body (c :: t)
  | escaped {c : Char} {t : Text} : c = '"' ∨ c = '\\' → Body t → Body ('\\' :: c :: t)

theorem body_flatMap_escapeChar {s : Text} (h : isQuotable s = true) : Body (s.flatMap escapeChar) := by
  induction s with
  | nil => exact .nil
  | cons c s ih =>
    rw [isQuotable_cons_iff] at h
    rw [List.flatMap_cons, escapeChar]
    by_cases hc : c = '"' ∨ c = '\\'
    · rw [if_pos hc]
      exact .escaped hc (ih h.2)
    · rw [if_neg hc]
      exact .plain ((isQtext_or_isWsp_iff h.1).mpr hc) (ih h.2)

/-- **A quoted-string is a text of the grammar between two quotes.** -/
theorem body_of_quote {name s q : Text} (h : quote name s = .ok q) : ∃ t, Body t ∧ q = '"' :: t ++ ['"'] := by
  obtain ⟨hs, rfl⟩ := quote_eq_ok_iff_isQuotable.mp h
  exact ⟨_, body_flatMap_escapeChar hs, rfl⟩

/-- White space and visible characters are all that the grammar has. -/
theorem Body.classes {t : Text} (h : Body t) {x : Char} (hx : x ∈ t) : isWsp x = true ∨ isVchar x = true := by
  induction h with
  | nil => cases hx
  | plain hc _ ih =>
    rcases List.mem_cons.mp hx with rfl | hx
    · exact isWsp_or_isVchar hc
    · exact ih hx
  | escaped hc _ ih =>
    rcases List.mem_cons.mp hx with rfl | hx
    · exact Or.inr (by decide)
    · rcases List.mem_cons.mp hx with rfl | hx
      · exact Or.inr (isVchar_of_escaped hc)
      · exact ih hx

/-! ## Columns -/

/-- The two characters that are escaped are no attribute characters, and take a triplet each. -/
theorem length_escapeChar_le (c : Char) : (escapeChar c).length ≤ Percent.charWidth c := by
  unfold escapeChar
  split
  next hc =>
    rcases hc with rfl | rfl
    · decide
    · decide
  · exact Percent.charWidth_pos c

/-- Escaping does not shorten a value. -/
theorem length_le_flatMap_escapeChar (s : Text) : s.length ≤ (s.flatMap escapeChar).length := by
  induction s with
  | nil => exact Nat.le_refl 0
  | cons c s ih =>
    rw [List.flatMap_cons, List.length_append, List.length_cons, escapeChar]
    split
    · rw [List.length_cons, List.length_singleton]
      omega
    · rw [List.length_singleton]
      omega

/-- Between quotes a value takes no more columns than percent-encoded. -/
theorem length_flatMap_escapeChar_le (s : Text) : (s.flatMap escapeChar).length ≤ Percent.encodedLength s := by
  induction s with
  | nil => exact Nat.le_refl 0
  | cons c s ih =>
    rw [List.flatMap_cons, List.length_append, Percent.encodedLength_cons]
    exact Nat.add_le_add (length_escapeChar_le c) ih

end FoldedHeader.QuotedString
