import FoldedHeader.Proofs.ChosenForms
import FoldedHeader.Proofs.ContinuedParameter
import FoldedHeader.Proofs.EscapedText

/-!
# The cheapest form

There are up to three ways to put a parameter on one line without a number: as a bare value, as a quoted-string, and
percent-encoded. In this order they get longer, whatever the value is (`length_tokenLine_lt`, `length_quotedLine_lt`),
and in this order they are tried (`Form.choose_cheapest`). So what is written is the shortest line that is open to the
value and fits, and continuation lines are written just if there is none (`encode_cheapest`).
-/

namespace FoldedHeader

variable {max : Nat} {p : Parameter} {f : Form} {line : Text}

/-! ## The three lines -/

/-- The line with a bare value. -/
def tokenLine (p : Parameter) : Text := p.name ++ ['='] ++ p.value

/-- The line with the value between quotes. -/
def quotedLine (p : Parameter) : Text :=
  p.name ++ ['='] ++ ('"' :: p.value.flatMap QuotedString.escapeChar ++ ['"'])

/-- The line with the value percent-encoded. -/
def extendedLine (p : Parameter) : Text := p.name ++ ['*', '='] ++ charsetMark ++ Percent.encode p.value

/-- A line fits if it has room between the fold space before it and a semicolon behind it. -/
def InLimit (max : Nat) (line : Text) : Prop := (' ' :: line ++ [';']).length ≤ max

/-- The lines on which a parameter can stand alone: each is open to some values, and has to fit. -/
inductive Candidate (max : Nat) (p : Parameter) : Text → Prop
  | token : isToken p.value = true → InLimit max (tokenLine p) → Candidate max p (tokenLine p)
  | quoted : isQuotable p.value = true → InLimit max (quotedLine p) → Candidate max p (quotedLine p)
  | extended : InLimit max (extendedLine p) → Candidate max p (extendedLine p)

/-- A candidate that is shorter than every other. -/
structure Cheapest (max : Nat) (p : Parameter) (line : Text) : Prop where
  candidate : Candidate max p line
  shortest : ∀ line', Candidate max p line' → line' ≠ line → line.length < line'.length

theorem Candidate.inLimit (h : Candidate max p line) : InLimit max line := by
  cases h with
  | token _ hf => exact hf
  | quoted _ hf => exact hf
  | extended hf => exact hf

theorem InLimit.of_length_le {line' : Text} (h : InLimit max line') (hle : line.length ≤ line'.length) :
    InLimit max line := by
  simp only [InLimit, List.length_append, List.length_cons, List.length_nil] at h ⊢
  omega

/-! ## Their order -/

theorem length_tokenLine_lt (p : Parameter) : (tokenLine p).length < (quotedLine p).length := by
  have hle := QuotedString.length_le_flatMap_escapeChar p.value
  simp only [tokenLine, quotedLine, List.length_append, List.length_cons, List.length_nil]
  omega

theorem length_quotedLine_lt (p : Parameter) : (quotedLine p).length < (extendedLine p).length := by
  have hle := QuotedString.length_flatMap_escapeChar_le p.value
  have hm : charsetMark.length = 7 := by decide
  simp only [quotedLine, extendedLine, List.length_append, List.length_cons, List.length_nil, Percent.length_encode, hm]
  omega

theorem cheapest_tokenLine (hv : isToken p.value = true) (hf : InLimit max (tokenLine p)) :
    Cheapest max p (tokenLine p) := by
  refine ⟨.token hv hf, fun line' hl hne => ?_⟩
  cases hl with
  | token => exact absurd rfl hne
  | quoted => exact length_tokenLine_lt p
  | extended => exact Nat.lt_trans (length_tokenLine_lt p) (length_quotedLine_lt p)

theorem cheapest_quotedLine (ht : isToken p.value = true → ¬ InLimit max (tokenLine p)) (hv : isQuotable p.value = true)
    (hf : InLimit max (quotedLine p)) : Cheapest max p (quotedLine p) := by
  refine ⟨.quoted hv hf, fun line' hl hne => ?_⟩
  cases hl with
  | token hv hf => exact absurd hf (ht hv)
  | quoted => exact absurd rfl hne
  | extended => exact length_quotedLine_lt p

theorem cheapest_extendedLine (ht : isToken p.value = true → ¬ InLimit max (tokenLine p))
    (hq : isQuotable p.value = true → ¬ InLimit max (quotedLine p)) (hf : InLimit max (extendedLine p)) :
    Cheapest max p (extendedLine p) := by
  refine ⟨.extended hf, fun line' hl hne => ?_⟩
  cases hl with
  | token hv hf => exact absurd hf (ht hv)
  | quoted hv hf => exact absurd hf (hq hv)
  | extended => exact absurd rfl hne

/-- If the percent-encoded line is the cheapest, the value is not quotable: between quotes it would be shorter. -/
theorem Cheapest.isQuotable_eq_false (h : Cheapest max p (extendedLine p)) : isQuotable p.value = false := by
  have hlt := length_quotedLine_lt p
  refine Bool.eq_false_iff.mpr fun hv => ?_
  have hf : InLimit max (quotedLine p) := h.candidate.inLimit.of_length_le (Nat.le_of_lt hlt)
  have hne : quotedLine p ≠ extendedLine p := fun he => Nat.ne_of_lt hlt (congrArg List.length he)
  exact Nat.lt_asymm hlt (h.shortest _ (.quoted hv hf) hne)

/-! ## The lines of the forms -/

namespace Form

theorem fits_iff_of_lines {name : Text} (h : f.lines name = [line]) : f.Fits max name ↔ InLimit max line := by
  simp only [Fits, h, List.mem_singleton, forall_eq, InLimit, List.length_append, List.length_cons, List.length_nil]
  omega

theorem lines_quoted {text : Text} (h : QuotedString.quote p.name p.value = .ok text) :
    (quoted text).lines p.name = [quotedLine p] := by
  rw [(QuotedString.quote_eq_ok_iff_isQuotable.mp h).2]
  rfl

theorem fits_token_iff_inLimit : (token p.value).Fits max p.name ↔ InLimit max (tokenLine p) := fits_iff_of_lines rfl

theorem fits_extended_iff_inLimit : (extended p.value).Fits max p.name ↔ InLimit max (extendedLine p) :=
  fits_iff_of_lines rfl

/-- **The form chosen is that of the cheapest candidate**, and continuation lines are chosen if there is none. -/
theorem choose_cheapest (h : choose max p = .ok f) :
    (∃ line, Cheapest max p line ∧ f.lines p.name = [line]) ∨
    (¬ ∃ line, Candidate max p line) ∧ ∃ pieces, 2 ≤ pieces.length ∧ f = continued pieces := by
  have ht : f ≠ token p.value → isToken p.value = true → ¬ InLimit max (tokenLine p) := by
    intro hne hv hf
    rw [choose_of_token hv (fits_token_iff_inLimit.mpr hf), Except.ok.injEq] at h
    exact hne h.symm
  rcases choose_cases max p with ⟨f', hw, ho, hf, hc⟩ | ⟨hn, _⟩
  · obtain rfl : f' = f := Except.ok.inj (hc.symm.trans h)
    refine Or.inl ?_
    cases hw with
    | token hv => exact ⟨_, cheapest_tokenLine hv (fits_token_iff_inLimit.mp hf), rfl⟩
    | quoted hquote =>
      have hlines := lines_quoted hquote
      have hv := (QuotedString.isQuotable_of_quote hquote).1
      exact ⟨_, cheapest_quotedLine (ht (by simp)) hv ((fits_iff_of_lines hlines).mp hf), hlines⟩
    | extended =>
      refine ⟨_, cheapest_extendedLine (ht (by simp)) (fun hv hq => ?_) (fits_extended_iff_inLimit.mp hf), rfl⟩
      -- a quotable value that fits between quotes would have been written there
      have hquote := QuotedString.quote_eq p.name hv
      have ht' := fun hv hf => ht (by simp) hv (fits_token_iff_inLimit.mp hf)
      rw [choose_of_quoted ht' hquote ((fits_iff_of_lines (lines_quoted hquote)).mpr hq)] at hc
      cases hc
    | continued => exact ho.elim
  · obtain ⟨pieces, hfill, rfl⟩ := exists_fill_of_noOneLineFits hn h
    refine Or.inr ⟨?_, pieces, (Continuation.layout_of_fill hfill).two_le_length hn, rfl⟩
    rintro ⟨line, hl⟩
    cases hl with
    | token hv hf => exact hn _ (.token hv) trivial (fits_token_iff_inLimit.mpr hf)
    | quoted hv hf =>
      have hquote := QuotedString.quote_eq p.name hv
      exact hn _ (.quoted hquote) trivial ((fits_iff_of_lines (lines_quoted hquote)).mpr hf)
    | extended hf => exact hn _ .extended trivial (fits_extended_iff_inLimit.mpr hf)

end Form

/-! ## What is written -/

/-- A line without a number: an equals sign stands behind the name, or behind a star there. -/
def Unnumbered (name line : Text) : Prop :=
  ∃ rest, line = name ++ '=' :: rest ∨ line = name ++ '*' :: '=' :: rest

theorem unnumbered_extendedLine (p : Parameter) : Unnumbered p.name (extendedLine p) :=
  ⟨charsetMark ++ Percent.encode p.value, Or.inr (by simp [extendedLine])⟩

theorem Candidate.unnumbered (h : Candidate max p line) : Unnumbered p.name line := by
  cases h with
  | token => exact ⟨p.value, Or.inl (List.append_assoc _ _ _)⟩
  | quoted => exact ⟨_, Or.inl (List.append_assoc _ _ _)⟩
  | extended => exact unnumbered_extendedLine p

/-- The first continuation line has a star and the number zero there. -/
theorem Unnumbered.ne_render_continued {name : Text} (h : Unnumbered name line) {pieces : List Text}
    (hp : 2 ≤ pieces.length) : fold ++ line ≠ (Form.continued pieces).render name := by
  obtain ⟨piece, pieces, rfl⟩ := List.exists_cons_of_length_pos (show 0 < pieces.length by omega)
  obtain ⟨rest, rfl | rfl⟩ := h
  · simp [Form.render, Form.lines, Continuation.header]
  · simp [Form.render, Form.lines, Continuation.header, Nat.toDigits_zero]

namespace Encoder

variable {e : Encoder} {value out : Text}

/-- **The cheapest form that fits is written.** If there is a candidate, the one that is shorter than every other is
written; continuation lines are written just if there is none; and a value that is written percent-encoded on one line
is not quotable. -/
theorem encode_cheapest (h : e.encode value [p] = .ok out) :
    ((∃ line, Candidate e.maxLineLength p line) →
      ∃ line, Cheapest e.maxLineLength p line ∧ out = value ++ (fold ++ line)) ∧
    ((∃ pieces, 2 ≤ pieces.length ∧ out = value ++ (Form.continued pieces).render p.name) ↔
      ¬ ∃ line, Candidate e.maxLineLength p line) ∧
    (out = value ++ (fold ++ extendedLine p) → isQuotable p.value = false) := by
  obtain ⟨f, hc, rfl⟩ := encode_singleton_eq_ok_iff.mp h
  rcases Form.choose_cheapest hc with ⟨line, hl, hlines⟩ | ⟨hno, pieces, hlen, rfl⟩
  · have hr : f.render p.name = fold ++ line := by rw [Form.render, hlines, List.flatMap_singleton]
    rw [hr]
    refine ⟨fun _ => ⟨line, hl, rfl⟩, ⟨?_, fun hno => absurd ⟨line, hl.candidate⟩ hno⟩, fun heq => ?_⟩
    · rintro ⟨pieces, hlen, heq⟩
      exact absurd (List.append_cancel_left heq) (hl.candidate.unnumbered.ne_render_continued hlen)
    · have heq : line = extendedLine p := List.append_cancel_left (List.append_cancel_left heq)
      exact (heq ▸ hl).isQuotable_eq_false
  · refine ⟨fun hex => absurd hex hno, ⟨fun _ => hno, fun _ => ⟨pieces, hlen, rfl⟩⟩, fun heq => ?_⟩
    exact absurd (List.append_cancel_left heq).symm ((unnumbered_extendedLine p).ne_render_continued hlen)

/-- Two candidates on lines of seventeen columns, which the longer one fills: a quote takes two columns in a
quoted-string and three percent-encoded. -/
theorem cheapest_of_quoted_and_extended :
    let p : Parameter := ⟨['a'], "x\"y".toList⟩
    let line := "a=\"x\\\"y\"".toList
    (Encoder.mk 17).encode [] [p] = .ok (fold ++ line) ∧ Candidate 17 p (extendedLine p) ∧ Cheapest 17 p line ∧
      line.length < (extendedLine p).length := by
  intro p line
  have h : (Encoder.mk 17).encode [] [p] = .ok (fold ++ line) := by cbv
  have hc : Candidate 17 p (extendedLine p) := .extended (by unfold InLimit; decide)
  obtain ⟨line', hl, heq⟩ := (encode_cheapest h).1 ⟨_, hc⟩
  have hline : line = line' := List.append_cancel_left heq
  have hl : Cheapest 17 p line := hline ▸ hl
  exact ⟨h, hc, hl, hl.shortest _ hc (by decide)⟩

end Encoder

end FoldedHeader
