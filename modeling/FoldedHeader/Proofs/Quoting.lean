import FoldedHeader.QuotedString

/-!
# What quoting gives

A quotable value can be quoted, and the columns told in advance are those of the quoted-string (`exists_quote`);
nothing else can (`isQuotable_of_quote`). A quoted-string is read back as its value (`unquote_quote`), as a token is
(`unquote_of_isToken`).
-/

namespace FoldedHeader

theorem isQuotable_cons_iff {c : Char} {s : Text} :
    isQuotable (c :: s) = true ↔ (isWsp c = true ∨ isVchar c = true) ∧ isQuotable s = true := by
  simp only [isQuotable, List.all_cons, Bool.and_eq_true, Bool.or_eq_true]

/-- What is not escaped is white space or visible. -/
theorem isWsp_or_isVchar {c : Char} (h : isQtext c = true ∨ isWsp c = true) : isWsp c = true ∨ isVchar c = true := by
  rw [isQtext_eq, Bool.and_eq_true] at h
  exact h.symm.imp_right And.left

namespace QuotedString

/-! ## Escaping, character by character -/

/-- The first character of a value that can be escaped, and the rest of it. -/
theorem escape_cons_eq_ok {name s t : Text} {c : Char} (h : escape name (c :: s) = .ok t) :
    ∃ u, escape name s = .ok u ∧
      ((isQtext c = true ∨ isWsp c = true) ∧ t = c :: u ∨ isVchar c = true ∧ t = '\\' :: c :: u) := by
  simp only [escape, Bool.or_eq_true] at h
  cases hs : escape name s with
  | error e =>
    rw [hs] at h
    split at h
    · cases h
    · split at h <;> cases h
  | ok u =>
    rw [hs] at h
    refine ⟨u, rfl, ?_⟩
    split at h
    next hq => exact Or.inl ⟨hq, (Except.ok.inj h).symm⟩
    · split at h
      next hv => exact Or.inr ⟨hv, (Except.ok.inj h).symm⟩
      · cases h

/-- A quotable value can be escaped, in as many columns as are told in advance. -/
theorem exists_escape (name : Text) {s : Text} (h : isQuotable s = true) :
    ∃ t, escape name s = .ok t ∧ escapedLength name s = .ok t.length := by
  induction s with
  | nil => exact ⟨[], rfl, rfl⟩
  | cons c s ih =>
    rw [isQuotable_cons_iff] at h
    obtain ⟨t, ht, hl⟩ := ih h.2
    simp only [escape, escapedLength, ht, hl, Except.map, Bool.or_eq_true]
    split
    · exact ⟨_, rfl, by rw [List.length_cons, Nat.add_comm]⟩
    next hc =>
      have hv : isVchar c = true := h.1.resolve_left fun hw => hc (Or.inr hw)
      simp only [hv, if_true]
      exact ⟨_, rfl, by rw [List.length_cons, List.length_cons, Nat.add_comm]⟩

theorem unescape_cons_of_ne {c : Char} (h : c ≠ '\\') : ∀ s : Text, unescape (c :: s) = (unescape s).map (c :: ·)
  | [] => by simp [unescape, h]
  | d :: s => by simp [unescape, h]

theorem ne_backslash {c : Char} (h : isQtext c = true ∨ isWsp c = true) : c ≠ '\\' := by
  rintro rfl
  exact absurd h (by decide)

/-- An escaped value is read back. -/
theorem unescape_escape {name s t : Text} (h : escape name s = .ok t) : unescape t = some s := by
  induction s generalizing t with
  | nil => cases h; rfl
  | cons c s ih =>
    obtain ⟨u, hu, ⟨hq, rfl⟩ | ⟨_, rfl⟩⟩ := escape_cons_eq_ok h
    · rw [unescape_cons_of_ne (ne_backslash hq), ih hu, Option.map_some]
    · rw [unescape, ih hu, Option.map_some]

/-- What can be escaped is quotable, and escaping does not shorten it. -/
theorem isQuotable_of_escape {name s t : Text} (h : escape name s = .ok t) :
    isQuotable s = true ∧ s.length ≤ t.length := by
  induction s generalizing t with
  | nil => exact ⟨rfl, Nat.zero_le _⟩
  | cons c s ih =>
    obtain ⟨u, hu, hc⟩ := escape_cons_eq_ok h
    obtain ⟨hs, hl⟩ := ih hu
    rcases hc with ⟨hq, rfl⟩ | ⟨hv, rfl⟩
    · exact ⟨isQuotable_cons_iff.mpr ⟨isWsp_or_isVchar hq, hs⟩, by simp only [List.length_cons]; omega⟩
    · exact ⟨isQuotable_cons_iff.mpr ⟨Or.inr hv, hs⟩, by simp only [List.length_cons]; omega⟩

/-! ## Quoted-strings -/

theorem quote_eq_ok_iff {name s q : Text} :
    quote name s = .ok q ↔ ∃ t, escape name s = .ok t ∧ q = '"' :: t ++ ['"'] := by
  unfold quote
  cases escape name s <;> simp [Except.map, eq_comm]

/-- **A quotable value can be quoted**, in as many columns as are told in advance. -/
theorem exists_quote (name : Text) {s : Text} (h : isQuotable s = true) :
    ∃ q, quote name s = .ok q ∧ quotedLength name s = .ok q.length := by
  obtain ⟨t, ht, hl⟩ := exists_escape name h
  refine ⟨_, quote_eq_ok_iff.mpr ⟨t, ht, rfl⟩, ?_⟩
  simp only [quotedLength, hl, Except.map, List.length_append, List.length_cons, List.length_nil]
  rw [Nat.add_comm]

/-- What can be quoted is quotable, and the quotes come on top of its columns. -/
theorem isQuotable_of_quote {name s q : Text} (h : quote name s = .ok q) :
    isQuotable s = true ∧ s.length + 2 ≤ q.length := by
  obtain ⟨t, ht, rfl⟩ := quote_eq_ok_iff.mp h
  obtain ⟨hs, hl⟩ := isQuotable_of_escape ht
  refine ⟨hs, ?_⟩
  simp only [List.length_append, List.length_cons, List.length_nil]
  omega

/-- What stands between two quotes is read without its backslashes. -/
theorem unquote_quoted (t : Text) : unquote ('"' :: t ++ ['"']) = unescape t := by
  rw [List.cons_append, unquote, if_pos List.getLast?_concat, List.dropLast_concat]

/-- **A quoted-string is read back as its value.** -/
theorem unquote_quote {name s q : Text} (h : quote name s = .ok q) : unquote q = some s := by
  obtain ⟨t, ht, rfl⟩ := quote_eq_ok_iff.mp h
  rw [unquote_quoted, unescape_escape ht]

/-- Text that does not begin with a quote stands for itself. -/
theorem unquote_of_head_ne {s : Text} (h : s.head? ≠ some '"') : unquote s = some s := by
  unfold unquote
  split
  · simp at h
  · rfl

/-- A token stands for itself. -/
theorem unquote_of_isToken {s : Text} (h : isToken s = true) : unquote s = some s := by
  refine unquote_of_head_ne fun hq => ?_
  exact absurd (isTokenChar_of_mem h (List.mem_of_head? hq)) (by decide)

end QuotedString

end FoldedHeader
