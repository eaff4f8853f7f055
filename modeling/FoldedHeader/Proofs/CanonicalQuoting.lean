import FoldedHeader.Proofs.EscapedText

/-!
# Canonical quoted-strings

Between the quotes of a canonical quoted-string a backslash stands before each quote and each backslash, and before
nothing else (`Body`). Such a text is the escaped form of one value, the value that it is read as
(`Body.exists_value`). So quoting is one to one between quotable values and canonical quoted-strings, and reading undoes
it (`canonical_quote_and_back`).

A reader that goes by quotes alone finds the end of a quoted-string: the first quote without a backslash before it is
the closing one (`closingQuote?_body`).
-/

namespace FoldedHeader.QuotedString

/-- The place of the first quote that no backslash escapes; a backslash escapes the character behind it. -/
def closingQuote? : Text → Option Nat
  | [] => none
  | '"' :: _ => some 0
  | '\\' :: _ :: s => (closingQuote? s).map (· + 2)
  | _ :: s => (closingQuote? s).map (· + 1)

/-! ## The closing quote -/

theorem ne_quote {c : Char} (h : isQtext c = true ∨ isWsp c = true) : c ≠ '"' := by
  rintro rfl
  exact absurd h (by decide)

theorem closingQuote?_cons_of_ne {c : Char} (hq : c ≠ '"') (hb : c ≠ '\\') :
    ∀ s : Text, closingQuote? (c :: s) = (closingQuote? s).map (· + 1)
  | [] => by simp [closingQuote?]
  | d :: s => by simp [closingQuote?, hb]

/-- **The closing quote is the first one that is not escaped**, whatever stands behind it. -/
theorem closingQuote?_body {t : Text} (h : Body t) (rest : Text) :
    closingQuote? (t ++ '"' :: rest) = some t.length := by
  induction h with
  | nil => rfl
  | plain hc _ ih =>
    rw [List.cons_append, closingQuote?_cons_of_ne (ne_quote hc) (ne_backslash hc), ih, Option.map_some,
      List.length_cons]
  | escaped _ _ ih =>
    rw [List.cons_append, List.cons_append, closingQuote?, ih, Option.map_some, List.length_cons, List.length_cons]

/-! ## One value for each text of the grammar -/

/-- **A text of the grammar is the escaped form of the value that it is read as.** -/
theorem Body.exists_value {t : Text} (h : Body t) :
    ∃ s, isQuotable s = true ∧ s.flatMap escapeChar = t ∧ unescape t = some s := by
  induction h with
  | nil => exact ⟨[], rfl, rfl, rfl⟩
  | @plain c t hc _ ih =>
    obtain ⟨s, hs, ht, hu⟩ := ih
    have hclass := isWsp_or_isVchar hc
    have hne : ¬ (c = '"' ∨ c = '\\') := (isQtext_or_isWsp_iff hclass).mp hc
    refine ⟨c :: s, isQuotable_cons_iff.mpr ⟨hclass, hs⟩, ?_, ?_⟩
    · rw [List.flatMap_cons, escapeChar, if_neg hne, ht, List.singleton_append]
    · rw [unescape_cons_of_ne (ne_backslash hc), hu, Option.map_some]
  | @escaped c t hc _ ih =>
    obtain ⟨s, hs, ht, hu⟩ := ih
    refine ⟨c :: s, isQuotable_cons_iff.mpr ⟨Or.inr (isVchar_of_escaped hc), hs⟩, ?_, ?_⟩
    · rw [List.flatMap_cons, escapeChar, if_pos hc, ht]
      rfl
    · rw [unescape, hu, Option.map_some]

/-- **Quoting is one to one between quotable values and canonical quoted-strings.** What can be quoted are the quotable
values; the quoted-string of one is canonical, is read back as the value and ends with its first quote that is not
escaped; and a canonical quoted-string is the quoted-string of the value that it is read as. -/
theorem canonical_quote_and_back (name : Text) :
    (∀ s, (∃ q, quote name s = .ok q) ↔ isQuotable s = true) ∧
    (∀ s q, quote name s = .ok q →
      unquote q = some s ∧ ∃ t, Body t ∧ q = '"' :: t ++ ['"'] ∧ unescape t = some s ∧
        closingQuote? (t ++ ['"']) = some t.length) ∧
    ∀ t, Body t → ∃ s, unquote ('"' :: t ++ ['"']) = some s ∧ quote name s = .ok ('"' :: t ++ ['"']) := by
  refine ⟨fun s => ⟨?_, fun h => ⟨_, quote_eq name h⟩⟩, fun s q h => ?_, fun t ht => ?_⟩
  · rintro ⟨q, h⟩
    exact (isQuotable_of_quote h).1
  · have hback := unquote_quote h
    obtain ⟨t, ht, rfl⟩ := body_of_quote h
    exact ⟨hback, t, ht, rfl, unquote_quoted t ▸ hback, closingQuote?_body ht []⟩
  · obtain ⟨s, hs, rfl, hu⟩ := ht.exists_value
    exact ⟨s, (unquote_quoted _).trans hu, quote_eq name hs⟩

/-- A value that ends in a quote and a backslash, which a canonical quoted-string ends in escaped. -/
theorem canonical_quote_of_trailing_backslash :
    let s : Text := ['a', ' ', '"', '\\']
    let t : Text := ['a', ' ', '\\', '"', '\\', '\\']
    quote ['p'] s = .ok ('"' :: t ++ ['"']) ∧ Body t ∧ unquote ('"' :: t ++ ['"']) = some s ∧
      ∃ s', unquote ('"' :: t ++ ['"']) = some s' ∧ quote ['p'] s' = .ok ('"' :: t ++ ['"']) := by
  intro s t
  have hq : quote ['p'] s = .ok ('"' :: t ++ ['"']) := rfl
  have ht : Body t :=
    .plain (by decide) <| .plain (by decide) <| .escaped (by decide) <| .escaped (by decide) .nil
  obtain ⟨_, hread, hcanonical⟩ := canonical_quote_and_back ['p']
  exact ⟨hq, ht, (hread s _ hq).1, hcanonical t ht⟩

/-- A backslash before any other character is read, but never written. -/
example : unquote ['"', '\\', 'a', '"'] = some ['a'] ∧ quote ['p'] ['a'] = .ok ['"', 'a', '"'] := ⟨rfl, rfl⟩

end FoldedHeader.QuotedString
