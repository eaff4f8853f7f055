import FoldedHeader.Proofs.EscapedText
import FoldedHeader.Proofs.FormChoice
import FoldedHeader.Proofs.PercentDecoding

/-!
# The grammar of a parameter's lines

Whatever its value is, the lines of a parameter follow the grammar `ParameterLine` (`Form.Writes.parameterLine`): the
name, behind it an equals sign or a star, and no white space and no special character of the value outside a
quoted-string. Under a visible name such lines have only white space and visible characters
(`ParameterLine.classes`).
-/

namespace FoldedHeader

/-- A line of a parameter of this name: a bare value, a quoted-string, or percent-encoded text behind a mark. -/
inductive ParameterLine (name : Text) : Text → Prop
  /-- The value as it is. -/
  | bare {value : Text} : (∀ c ∈ value, isTokenChar c = true) → ParameterLine name (name ++ '=' :: value)
  /-- The value between quotes. -/
  | quoted {body : Text} : QuotedString.Body body → ParameterLine name (name ++ '=' :: ('"' :: body ++ ['"']))
  /-- A star, what else marks the line, and percent-encoded text. -/
  | extended {mark body : Text} : (∀ c ∈ mark, isTokenChar c = true) → (∀ c ∈ body, isTokenChar c = true) →
      ParameterLine name (name ++ '*' :: (mark ++ '=' :: body))

/-! ## Token characters of the encoder's own -/

theorem isTokenChar_of_isDigit {c : Char} (h : c.isDigit = true) : isTokenChar c = true := by
  simp only [Char.isDigit, ge_iff_le, Bool.and_eq_true, decide_eq_true_eq, UInt32.le_iff_toNat_le] at h
  have h₁ : 48 ≤ c.toNat := h.1
  have h₂ : c.toNat ≤ 57 := h.2
  have hv : isVchar c = true := isVchar_iff.mpr ⟨by omega, by omega⟩
  have hs : isTspecial c = false := by
    simp [isTspecial, tspecials, ← Char.toNat_inj]
    omega
  rw [isTokenChar, hv, hs]
  rfl

theorem isTokenChar_of_mem_charsetMark {x : Char} (hx : x ∈ charsetMark) : isTokenChar x = true :=
  List.all_eq_true.mp (show charsetMark.all isTokenChar = true by decide) x hx

theorem isTokenChar_of_mem_mark {k : Nat} {x : Char} (hx : x ∈ Continuation.mark k) : isTokenChar x = true := by
  unfold Continuation.mark at hx
  split at hx
  · exact isTokenChar_of_mem_charsetMark hx
  · cases hx

/-! ## The lines of the forms -/

/-- **The lines of a parameter follow the grammar**, whatever its name and its value are. -/
theorem Form.Writes.parameterLine {p : Parameter} {f : Form} (hw : f.Writes p) {line : Text}
    (hl : line ∈ f.lines p.name) : ParameterLine p.name line := by
  cases hw with
  | token hv =>
    rw [List.mem_singleton.mp hl, List.append_assoc]
    exact .bare fun c hc => isTokenChar_of_mem hv hc
  | quoted hq =>
    obtain ⟨body, hb, rfl⟩ := QuotedString.body_of_quote hq
    rw [List.mem_singleton.mp hl, List.append_assoc]
    exact .quoted hb
  | extended =>
    have heq : p.name ++ ['*', '='] ++ charsetMark ++ Percent.encode p.value =
        p.name ++ '*' :: ([] ++ '=' :: (charsetMark ++ Percent.encode p.value)) := by simp
    rw [List.mem_singleton.mp hl, heq]
    refine .extended (by simp) fun c hc => ?_
    exact (List.mem_append.mp hc).elim isTokenChar_of_mem_charsetMark Percent.isTokenChar_of_mem_encode
  | continued _ _ =>
    obtain ⟨k, piece, _, rfl⟩ := mem_lines_continued.mp hl
    have heq : Continuation.header p.name k ++ Percent.encode piece =
        p.name ++ '*' :: ((Nat.toDigits 10 k ++ ['*']) ++ '=' :: (Continuation.mark k ++ Percent.encode piece)) := by
      simp [Continuation.header]
    rw [heq]
    refine .extended (fun c hc => ?_) fun c hc => ?_
    · rcases List.mem_append.mp hc with hc | hc
      · exact isTokenChar_of_isDigit (Nat.isDigit_of_mem_toDigits (by decide) (by decide) hc)
      · rw [List.mem_singleton.mp hc]
        decide
    · exact (List.mem_append.mp hc).elim isTokenChar_of_mem_mark Percent.isTokenChar_of_mem_encode

namespace ParameterLine

variable {name line : Text}

/-- The characters of a line are those of the name, white space and visible characters. -/
theorem mem_name_or_classes (h : ParameterLine name line) {x : Char} (hx : x ∈ line) :
    x ∈ name ∨ isWsp x = true ∨ isVchar x = true := by
  cases h with
  | bare hv =>
    simp only [List.mem_append, List.mem_cons] at hx
    rcases hx with hx | rfl | hx
    · exact Or.inl hx
    · exact Or.inr (Or.inr (by decide))
    · exact Or.inr (Or.inr (isVchar_of_isTokenChar (hv x hx)))
  | quoted hb =>
    simp only [List.mem_append, List.mem_cons, List.not_mem_nil, or_false] at hx
    rcases hx with hx | rfl | (rfl | hx) | rfl
    · exact Or.inl hx
    · exact Or.inr (Or.inr (by decide))
    · exact Or.inr (Or.inr (by decide))
    · exact Or.inr (hb.classes hx)
    · exact Or.inr (Or.inr (by decide))
  | extended hm hb =>
    simp only [List.mem_append, List.mem_cons] at hx
    rcases hx with hx | rfl | hx | rfl | hx
    · exact Or.inl hx
    · exact Or.inr (Or.inr (by decide))
    · exact Or.inr (Or.inr (isVchar_of_isTokenChar (hm x hx)))
    · exact Or.inr (Or.inr (by decide))
    · exact Or.inr (Or.inr (isVchar_of_isTokenChar (hb x hx)))

/-- Under a visible name, a line has only white space and visible characters. -/
theorem classes (h : ParameterLine name line) (hn : ∀ c ∈ name, isVchar c = true) {x : Char} (hx : x ∈ line) :
    isWsp x = true ∨ isVchar x = true :=
  (h.mem_name_or_classes hx).elim (fun hm => Or.inr (hn x hm)) id

end ParameterLine

end FoldedHeader
