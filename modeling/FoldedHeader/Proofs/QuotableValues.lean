import FoldedHeader.Proofs.EscapedText

/-!
# Quotable values

Whether a value is quotable, its quoted-string and the columns of that are found in three traversals, each with tests of
its own. They agree (`quotable_agreement`): all three accept the same values, and the two that can fail do so with one
error, which names the first character that a quoted-string cannot hold (`firstUnquotable?`).
-/

namespace FoldedHeader

/-- The first character of a value that is neither white space nor visible. -/
def firstUnquotable? (s : Text) : Option Char := s.find? fun c => !isWsp c && !isVchar c

variable {name s : Text} {c : Char}

theorem firstUnquotable?_cons_of_mem {d : Char} (h : isWsp d = true ∨ isVchar d = true) :
    firstUnquotable? (d :: s) = firstUnquotable? s := by
  rw [firstUnquotable?, List.find?_cons_of_neg (by rcases h with h | h <;> simp [h]), firstUnquotable?]

theorem firstUnquotable?_cons_of_notMem {d : Char} (hw : isWsp d = false) (hv : isVchar d = false) :
    firstUnquotable? (d :: s) = some d := by
  rw [firstUnquotable?, List.find?_cons_of_pos (by simp [hw, hv])]

/-- A value is quotable just if it has no such character. -/
theorem firstUnquotable?_eq_none_iff : firstUnquotable? s = none ↔ isQuotable s = true := by
  simp [firstUnquotable?, isQuotable, Decidable.or_iff_not_imp_left]

namespace QuotedString

/-- **Escaping fails at the first character that a quoted-string cannot hold**, and so does counting the columns. -/
theorem escape_eq_error (name : Text) (h : firstUnquotable? s = some c) :
    escape name s = .error (.unencodableCharacter name c) ∧
      escapedLength name s = .error (.unencodableCharacter name c) := by
  induction s with
  | nil => cases h
  | cons d s ih =>
    by_cases hd : isWsp d = true ∨ isVchar d = true
    · rw [firstUnquotable?_cons_of_mem hd] at h
      obtain ⟨he, hl⟩ := ih h
      simp only [escape, escapedLength, he, hl, Except.map, Bool.or_eq_true]
      -- the character is written as it is or escaped, and the failure behind it is passed on
      split
      · exact ⟨rfl, rfl⟩
      next hq =>
        have hv : isVchar d = true := hd.resolve_left fun hw => hq (Or.inr hw)
        rw [if_pos hv, if_pos hv]
        exact ⟨rfl, rfl⟩
    · have hw : isWsp d = false := Bool.eq_false_iff.mpr fun hw => hd (Or.inl hw)
      have hv : isVchar d = false := Bool.eq_false_iff.mpr fun hv => hd (Or.inr hv)
      rw [firstUnquotable?_cons_of_notMem hw hv, Option.some.injEq] at h
      subst h
      simp [escape, escapedLength, isQtext_eq, hw, hv]

theorem quote_eq_error (name : Text) (h : firstUnquotable? s = some c) :
    quote name s = .error (.unencodableCharacter name c) ∧
      quotedLength name s = .error (.unencodableCharacter name c) := by
  obtain ⟨he, hl⟩ := escape_eq_error name h
  rw [quote, quotedLength, he, hl]
  exact ⟨rfl, rfl⟩

/-- Escaping at most doubles a value. -/
theorem length_flatMap_escapeChar_le_two_mul (s : Text) : (s.flatMap escapeChar).length ≤ 2 * s.length := by
  induction s with
  | nil => exact Nat.le_refl 0
  | cons c s ih =>
    have hc : (escapeChar c).length ≤ 2 := by
      unfold escapeChar
      split
      · exact Nat.le_refl 2
      · exact Nat.le_succ 1
    rw [List.flatMap_cons, List.length_append, List.length_cons]
    omega

/-- The columns of a quoted-string are those told in advance, and escaping at most doubles those of the value. -/
theorem quotedLength_of_quote {q : Text} (h : quote name s = .ok q) :
    quotedLength name s = .ok q.length ∧ s.length + 2 ≤ q.length ∧ q.length ≤ 2 * s.length + 2 := by
  obtain ⟨hs, hle⟩ := isQuotable_of_quote h
  obtain ⟨q', hq', hlen⟩ := exists_quote name hs
  rw [h, Except.ok.injEq] at hq'
  refine ⟨hq' ▸ hlen, hle, ?_⟩
  have hdouble := length_flatMap_escapeChar_le_two_mul s
  rw [(quote_eq_ok_iff_isQuotable.mp h).2]
  simp only [List.length_append, List.length_cons, List.length_nil]
  omega

/-- **The three traversals of a value agree.** A value is quotable just if it can be quoted, and just if its columns are
told. They are then the columns of the quoted-string, two more than those of the value at least and two more than twice
those at most. A value that is not quotable has a first character that is neither white space nor visible, and both
fail at this character. -/
theorem quotable_agreement (name s : Text) :
    ((∃ q, quote name s = .ok q) ↔ isQuotable s = true) ∧
    ((∃ n, quotedLength name s = .ok n) ↔ isQuotable s = true) ∧
    (∀ q, quote name s = .ok q →
      quotedLength name s = .ok q.length ∧ s.length + 2 ≤ q.length ∧ q.length ≤ 2 * s.length + 2) ∧
    (isQuotable s = false → ∃ c, firstUnquotable? s = some c ∧
      quote name s = .error (.unencodableCharacter name c) ∧
      quotedLength name s = .error (.unencodableCharacter name c)) := by
  cases hc : firstUnquotable? s with
  | none =>
    have hs := firstUnquotable?_eq_none_iff.mp hc
    obtain ⟨q, hq, hlen⟩ := exists_quote name hs
    refine ⟨⟨fun _ => hs, fun _ => ⟨q, hq⟩⟩, ⟨fun _ => hs, fun _ => ⟨_, hlen⟩⟩, fun q hq => quotedLength_of_quote hq, ?_⟩
    intro hs'
    rw [hs] at hs'
    cases hs'
  | some c =>
    have hs : isQuotable s = false := Bool.eq_false_iff.mpr fun hs => by
      rw [firstUnquotable?_eq_none_iff.mpr hs] at hc
      cases hc
    obtain ⟨hq, hlen⟩ := quote_eq_error name hc
    simp [hs, hq, hlen]

/-- A value with both characters that are escaped, and one that cannot be quoted from its line break on. -/
theorem quotable_agreement_at_line_break :
    quote ['p'] ['"', '\\'] = .ok ['"', '\\', '"', '\\', '\\', '"'] ∧ quotedLength ['p'] ['"', '\\'] = .ok 6 ∧
    isQuotable ['a', '\n', 'é'] = false ∧ ∃ c, firstUnquotable? ['a', '\n', 'é'] = some c ∧ c = '\n' ∧
      quote ['p'] ['a', '\n', 'é'] = .error (.unencodableCharacter ['p'] c) := by
  have hq : quote ['p'] ['"', '\\'] = .ok ['"', '\\', '"', '\\', '\\', '"'] := rfl
  have hs : isQuotable ['a', '\n', 'é'] = false := by decide
  obtain ⟨c, hc, hfails, _⟩ := (quotable_agreement ['p'] ['a', '\n', 'é']).2.2.2 hs
  have hbreak : c = '\n' := Option.some.inj (hc.symm.trans (by decide))
  exact ⟨hq, ((quotable_agreement ['p'] ['"', '\\']).2.2.1 _ hq).1, hs, c, hc, hbreak, hfails⟩

end QuotedString

end FoldedHeader
