import FoldedHeader.Form
import FoldedHeader.Proofs.ContinuationLayout
import FoldedHeader.Proofs.Quoting

/-!
# What choosing a form gives

`Form.Writes p f` says that `f` is a form in which the value of `p` can be written, whatever the room, and `Form.Fits`
that the lines of a form are within a limit. A form of one line is chosen if one of these fits, and else filling of
continuation lines decides (`choose_cases`). So the form chosen is one in which the value can be written, its lines fit
(`writes_of_choose`), and there is one cause only for which there may be none (`choose_eq_error`): the pre-checks leave
nothing that a quoted-string cannot hold.
-/

namespace FoldedHeader.Form

/-- The forms in which the value of a parameter can be written, whatever the room. -/
inductive Writes (p : Parameter) : Form → Prop
  | token : isToken p.value = true → Writes p (token p.value)
  | quoted {text : Text} : QuotedString.quote p.name p.value = .ok text → Writes p (quoted text)
  | extended : Writes p (extended p.value)
  | continued {pieces : List Text} : pieces ≠ [] → pieces.flatten = p.value → Writes p (continued pieces)

/-- Does the form take one line, without a number on it? -/
def OneLine : Form → Prop
  | token _ | quoted _ | extended _ => True
  | continued _ => False

/-- Each line, with the fold space before it and the semicolon that may stand behind it, is within the limit. -/
def Fits (max : Nat) (name : Text) (f : Form) : Prop := ∀ line ∈ f.lines name, 1 + line.length + 1 ≤ max

/-- No form of one line is both open to the value and within the limit. -/
def NoOneLineFits (max : Nat) (p : Parameter) : Prop := ∀ f : Form, f.Writes p → f.OneLine → ¬ f.Fits max p.name

variable {max : Nat} {p : Parameter} {f : Form}

/-! ## The columns of the forms -/

theorem fits_token_iff {name value : Text} :
    (token value).Fits max name ↔ assignmentWidth name + value.length ≤ max := by
  simp only [Fits, lines, assignmentWidth, List.mem_singleton, forall_eq, List.length_append, List.length_cons,
    List.length_nil]
  omega

theorem fits_quoted_iff {name text : Text} :
    (quoted text).Fits max name ↔ assignmentWidth name + text.length ≤ max := by
  simp only [Fits, lines, assignmentWidth, List.mem_singleton, forall_eq, List.length_append, List.length_cons,
    List.length_nil]
  omega

theorem fits_extended_iff : (extended p.value).Fits max p.name ↔ extendedWidth p ≤ max := by
  simp only [Fits, lines, extendedWidth, List.mem_singleton, forall_eq, List.length_append, List.length_cons,
    List.length_nil, Percent.length_encode]
  omega

theorem mem_lines_continued {name line : Text} {pieces : List Text} :
    line ∈ (continued pieces).lines name ↔
      ∃ k piece, pieces[k]? = some piece ∧ Continuation.header name k ++ Percent.encode piece = line := by
  simp only [lines, List.mem_iff_getElem?, List.getElem?_mapIdx, Option.map_eq_some_iff]

theorem fits_continued {name value : Text} {pieces : List Text} (h : Continuation.Layout max name value pieces) :
    (continued pieces).Fits max name := by
  intro line hl
  obtain ⟨k, piece, hk, rfl⟩ := mem_lines_continued.mp hl
  exact h.length_line_le hk

/-! ## The choice -/

/-- Without a form of one line that fits, filling decides. -/
def chooseContinued (max : Nat) (p : Parameter) : Except EncodeError Form :=
  match (Continuation.rule max p.name).fill p.value with
  | some pieces => .ok (continued pieces)
  | none => .error (.nameTooLong p.name max)

/-- The percent-encoded form is on one line just if it fits there. -/
theorem chooseExtended_eq (max : Nat) (p : Parameter) :
    (extended p.value).Fits max p.name ∧ chooseExtended max p = .ok (extended p.value) ∨
    ¬ (extended p.value).Fits max p.name ∧ chooseExtended max p = chooseContinued max p := by
  by_cases h : extendedWidth p ≤ max
  · exact Or.inl ⟨fits_extended_iff.mpr h, by rw [chooseExtended, if_pos h]⟩
  · exact Or.inr ⟨fun hf => h (fits_extended_iff.mp hf), by rw [chooseExtended, if_neg h]; rfl⟩

theorem not_precheck_of_not_fits (ht : isToken p.value = true → ¬ (token p.value).Fits max p.name) :
    ¬ (assignmentWidth p.name + p.value.length ≤ max ∧ isToken p.value = true) :=
  fun h => ht h.2 (fits_token_iff.mpr h.1)

/-- A token is written as it is if that fits. -/
theorem choose_of_token (hv : isToken p.value = true) (hf : (token p.value).Fits max p.name) :
    choose max p = .ok (token p.value) := by
  have hw := fits_token_iff.mp hf
  simp [choose, hv, hw]

/-- A value that is not written as it is is written between quotes if that fits: the pre-check of its length passes. -/
theorem choose_of_quoted (ht : isToken p.value = true → ¬ (token p.value).Fits max p.name) {text : Text}
    (hq : QuotedString.quote p.name p.value = .ok text) (hf : (quoted text).Fits max p.name) :
    choose max p = .ok (quoted text) := by
  obtain ⟨hv, hle⟩ := QuotedString.isQuotable_of_quote hq
  obtain ⟨text', hq', hlen⟩ := QuotedString.exists_quote p.name hv
  rw [hq, Except.ok.injEq] at hq'
  have hw := fits_quoted_iff.mp hf
  have ht' := not_precheck_of_not_fits ht
  have hpre : assignmentWidth p.name + p.value.length + 2 ≤ max := by omega
  simp [choose, ht', hpre, hv, hq, hlen, ← hq', hw, bind, Except.bind, pure, Except.pure]

/-- If neither plain form fits, the percent-encoded form is next. -/
theorem choose_of_not_plain (ht : isToken p.value = true → ¬ (token p.value).Fits max p.name)
    (hq : ∀ text, QuotedString.quote p.name p.value = .ok text → ¬ (quoted text).Fits max p.name) :
    choose max p = chooseExtended max p := by
  have ht' := not_precheck_of_not_fits ht
  by_cases hpre : assignmentWidth p.name + p.value.length + 2 ≤ max ∧ isQuotable p.value = true
  · obtain ⟨text, hquote, hlen⟩ := QuotedString.exists_quote p.name hpre.2
    have hw : ¬ assignmentWidth p.name + text.length ≤ max := fun hw => hq text hquote (fits_quoted_iff.mpr hw)
    simp [choose, ht', hpre, hlen, hw, bind, Except.bind]
  · simp [choose, ht', hpre]

/-- **A form of one line is chosen if one fits; else filling of continuation lines decides.** -/
theorem choose_cases (max : Nat) (p : Parameter) :
    (∃ f : Form, f.Writes p ∧ f.OneLine ∧ f.Fits max p.name ∧ choose max p = .ok f) ∨
    NoOneLineFits max p ∧ choose max p = chooseContinued max p := by
  by_cases ht : isToken p.value = true ∧ (token p.value).Fits max p.name
  · exact Or.inl ⟨_, .token ht.1, trivial, ht.2, choose_of_token ht.1 ht.2⟩
  rw [not_and] at ht
  by_cases hq : ∃ text, QuotedString.quote p.name p.value = .ok text ∧ (quoted text).Fits max p.name
  · obtain ⟨text, hquote, hf⟩ := hq
    exact Or.inl ⟨_, .quoted hquote, trivial, hf, choose_of_quoted ht hquote hf⟩
  have hq' : ∀ text, QuotedString.quote p.name p.value = .ok text → ¬ (quoted text).Fits max p.name :=
    fun text hquote hf => hq ⟨text, hquote, hf⟩
  have hc := choose_of_not_plain ht hq'
  rcases chooseExtended_eq max p with ⟨hf, he⟩ | ⟨hf, he⟩
  · exact Or.inl ⟨_, .extended, trivial, hf, hc.trans he⟩
  · refine Or.inr ⟨fun f hw ho => ?_, hc.trans he⟩
    cases hw with
    | token hv => exact ht hv
    | quoted hv => exact hq' _ hv
    | extended => exact hf
    | continued => exact ho.elim

theorem choose_of_noOneLineFits (h : NoOneLineFits max p) : choose max p = chooseContinued max p := by
  rcases choose_cases max p with ⟨f, hw, ho, hf, _⟩ | ⟨_, hc⟩
  · exact absurd hf (h f hw ho)
  · exact hc

theorem chooseContinued_cases (max : Nat) (p : Parameter) :
    (∃ pieces, (Continuation.rule max p.name).fill p.value = some pieces ∧
      chooseContinued max p = .ok (continued pieces)) ∨
    (Continuation.rule max p.name).fill p.value = none ∧ chooseContinued max p = .error (.nameTooLong p.name max) := by
  unfold chooseContinued
  cases hf : (Continuation.rule max p.name).fill p.value with
  | none => exact Or.inr ⟨rfl, rfl⟩
  | some pieces => exact Or.inl ⟨pieces, rfl, rfl⟩

/-- Without a form of one line that fits, the form chosen is what filling gives. -/
theorem exists_fill_of_noOneLineFits (hn : NoOneLineFits max p) (h : choose max p = .ok f) :
    ∃ pieces, (Continuation.rule max p.name).fill p.value = some pieces ∧ f = continued pieces := by
  rw [choose_of_noOneLineFits hn] at h
  rcases chooseContinued_cases max p with ⟨pieces, hfill, he⟩ | ⟨_, he⟩
  · rw [he, Except.ok.injEq] at h
    exact ⟨pieces, hfill, h.symm⟩
  · rw [he] at h
    cases h

/-- **The form chosen is one in which the value can be written, and its lines fit.** -/
theorem writes_of_choose (h : choose max p = .ok f) : f.Writes p ∧ f.Fits max p.name := by
  rcases choose_cases max p with ⟨f', hw, _, hf, hc⟩ | ⟨hn, _⟩
  · rw [hc, Except.ok.injEq] at h
    exact h ▸ ⟨hw, hf⟩
  · obtain ⟨pieces, hfill, rfl⟩ := exists_fill_of_noOneLineFits hn h
    have hl := Continuation.layout_of_fill hfill
    exact ⟨.continued hl.ne_nil hl.flatten_eq, fits_continued hl⟩

/-- **No form is chosen only if the name is too long.** -/
theorem choose_eq_error {err : EncodeError} (h : choose max p = .error err) : err = .nameTooLong p.name max := by
  rcases choose_cases max p with ⟨f', _, _, _, hc⟩ | ⟨_, hc⟩
  · rw [hc] at h
    cases h
  · rcases chooseContinued_cases max p with ⟨pieces, _, he⟩ | ⟨_, he⟩
    · rw [hc, he] at h
      cases h
    · rw [hc, he, Except.error.injEq] at h
      exact h.symm

/-- Continuation lines are chosen when no form of one line fits, and then filling gives them. -/
theorem choose_eq_continued {pieces : List Text} (h : choose max p = .ok (continued pieces)) :
    NoOneLineFits max p ∧ (Continuation.rule max p.name).fill p.value = some pieces := by
  rcases choose_cases max p with ⟨f', _, ho, _, hc⟩ | ⟨hn, _⟩
  · rw [hc, Except.ok.injEq] at h
    exact (h ▸ ho : (continued pieces).OneLine).elim
  · obtain ⟨pieces', hfill, heq⟩ := exists_fill_of_noOneLineFits hn h
    exact ⟨hn, by rw [hfill, continued.inj heq]⟩

end FoldedHeader.Form
