import Mathlib
import FoldedHeader.Encoder
import FoldedHeader.Proofs.FormChoice
import FoldedHeader.Proofs.PercentDecoding

/-!
# A parameter on continuation lines

If no form of one line fits, a parameter is written just if there is a layout of its value on numbered lines, and the
lines in the text are then as few as any layout has (`encode_fewest_lines`). What is written is known to the last
character (`Form.lines_continued`, `encode_continued`): every line has its header and a piece of the value, encoded as
on one line, and no line leaves out a character that it had room for.
-/

namespace FoldedHeader

variable {e : Encoder} {p : Parameter} {pieces : List Text}

/-! ## Numbered lines -/

/-- Continuation lines, each from its name to the end of its piece. -/
theorem Form.lines_continued (name : Text) (pieces : List Text) : (continued pieces).lines name =
    pieces.mapIdx fun k piece => name ++ ['*'] ++ Nat.toDigits 10 k ++ ['*', '='] ++
      (if k = 0 then "UTF-8''".toList else []) ++ Percent.encode piece := rfl

/-- Continuation lines as they are written, one behind the other. -/
theorem Form.render_continued (name : Text) (pieces : List Text) : (continued pieces).render name =
    (pieces.mapIdx fun k piece => fold ++ (Continuation.header name k ++ Percent.encode piece)).flatten := by
  simp only [render, lines, List.flatMap_def, List.mapIdx_eq_zipIdx_map, List.map_map]
  rfl

/-! ## Complete and optimal -/

namespace Encoder

/-- A parameter for which filling gets through is written on the lines that filling gives. -/
theorem report_of_fill (h : Form.NoOneLineFits e.maxLineLength p)
    (hf : (Continuation.rule e.maxLineLength p.name).fill p.value = some pieces) (value : Text) :
    e.report value [p] = ⟨[.extended p.name pieces.length],
      .ok (value ++ ((Form.continued pieces).lines p.name).flatMap (fold ++ ·))⟩ := by
  have hc : Form.choose e.maxLineLength p = .ok (.continued pieces) := by
    rw [Form.choose_of_noOneLineFits h, Form.chooseContinued, hf]
  simp only [report, hc, Form.event, Form.render]

theorem encode_of_fill_eq_none (h : Form.NoOneLineFits e.maxLineLength p)
    (hf : (Continuation.rule e.maxLineLength p.name).fill p.value = none) (value : Text) :
    e.encode value [p] = .error (.nameTooLong p.name e.maxLineLength) := by
  refine encode_cons_of_error ?_ value []
  rw [Form.choose_of_noOneLineFits h, Form.chooseContinued, hf]

/-- **Continuation lines are complete and optimal.** If no form of one line fits, a parameter is written just if its
value has a layout. The text then has a numbered line for each piece of a layout, and these are as few as the pieces of
any; without a layout the name is too long. -/
theorem encode_fewest_lines (h : Form.NoOneLineFits e.maxLineLength p) (value : Text) :
    ((∃ out, e.encode value [p] = .ok out) ↔
      ∃ pieces, Continuation.Layout e.maxLineLength p.name p.value pieces) ∧
    (∀ out, e.encode value [p] = .ok out →
      ∃ pieces lines : List Text, Continuation.Layout e.maxLineLength p.name p.value pieces ∧
        lines = (pieces.mapIdx fun k piece => p.name ++ ['*'] ++ Nat.toDigits 10 k ++ ['*', '='] ++
          (if k = 0 then "UTF-8''".toList else []) ++ Percent.encode piece) ∧
        out = value ++ lines.flatMap (fun line => [';', '\r', '\n'] ++ ' ' :: line) ∧
        lines.length = pieces.length ∧ (e.report value [p]).events = [.extended p.name lines.length] ∧
        ∀ pieces', Continuation.Layout e.maxLineLength p.name p.value pieces' → lines.length ≤ pieces'.length) ∧
    ((¬ ∃ pieces, Continuation.Layout e.maxLineLength p.name p.value pieces) →
      e.encode value [p] = .error (.nameTooLong p.name e.maxLineLength)) := by
  cases hf : (Continuation.rule e.maxLineLength p.name).fill p.value with
  | none =>
    have hno := Continuation.fill_eq_none_iff.mp hf
    have henc := encode_of_fill_eq_none h hf value
    refine ⟨⟨?_, fun hl => absurd hl hno⟩, ?_, fun _ => henc⟩
    · rintro ⟨out, ho⟩
      rw [henc] at ho
      cases ho
    · intro out ho
      rw [henc] at ho
      cases ho
  | some pieces =>
    have hl := Continuation.layout_of_fill hf
    have hr := report_of_fill h hf value
    have hlen : ((Form.continued pieces).lines p.name).length = pieces.length := List.length_mapIdx
    refine ⟨⟨fun _ => ⟨pieces, hl⟩, fun _ => ⟨_, congrArg Report.result hr⟩⟩, ?_, fun hno => absurd ⟨pieces, hl⟩ hno⟩
    intro out ho
    refine ⟨pieces, (Form.continued pieces).lines p.name, hl, Form.lines_continued p.name pieces, ?_, hlen, ?_,
      fun pieces' hl' => ?_⟩
    · rw [encode, hr, Except.ok.injEq] at ho
      exact ho.symm
    · rw [hr, hlen]
    · rw [hlen]
      exact Continuation.length_le_of_fill hf hl'

/-- Two characters of nine columns on lines of seventeen: line 0 has room for three columns only and stays empty, yet no
layout has fewer lines than the three that are written. -/
theorem fewest_lines_first_empty : Form.NoOneLineFits 17 ⟨['n'], ['€', '€']⟩ ∧
    (Encoder.mk 17).encode ['v'] [⟨['n'], ['€', '€']⟩] =
      .ok "v;\r\n n*0*=UTF-8'';\r\n n*1*=%E2%82%AC;\r\n n*2*=%E2%82%AC".toList ∧
    ∃ pieces lines : List Text, Continuation.Layout 17 ['n'] ['€', '€'] pieces ∧ lines.length = pieces.length ∧
      "v;\r\n n*0*=UTF-8'';\r\n n*1*=%E2%82%AC;\r\n n*2*=%E2%82%AC".toList =
        'v' :: lines.flatMap (fun line => [';', '\r', '\n'] ++ ' ' :: line) ∧ lines.length = 3 ∧
      ∀ pieces', Continuation.Layout 17 ['n'] ['€', '€'] pieces' → 3 ≤ pieces'.length := by
  have h : Form.NoOneLineFits 17 ⟨['n'], ['€', '€']⟩ := by
    intro f hw ho hf
    cases hw with
    | token hv => exact absurd hv (by decide)
    | quoted hq => exact absurd (QuotedString.isQuotable_of_quote hq).1 (by decide)
    | extended => exact absurd (Form.fits_extended_iff.mp hf) (by decide)
    | continued => exact ho
  have henc : (Encoder.mk 17).encode ['v'] [⟨['n'], ['€', '€']⟩] =
      .ok "v;\r\n n*0*=UTF-8'';\r\n n*1*=%E2%82%AC;\r\n n*2*=%E2%82%AC".toList := by cbv
  have hevents : ((Encoder.mk 17).report ['v'] [⟨['n'], ['€', '€']⟩]).events = [.extended ['n'] 3] := by cbv
  obtain ⟨pieces, lines, hl, _, htext, hlen, hev, hmin⟩ := (encode_fewest_lines (e := ⟨17⟩) h ['v']).2.1 _ henc
  have hthree : lines.length = 3 := (Event.extended.inj (List.cons.inj (hev.symm.trans hevents)).1).2
  exact ⟨h, henc, pieces, lines, hl, hlen, htext, hthree, hthree ▸ hmin⟩

end Encoder

/-! ## What is written -/

namespace Continuation

variable {max : Nat} {name value : Text}

/-- A layout on a single line leaves room for the form without numbers, whose header is shorter. -/
theorem Layout.two_le_length_of_not_fits (h : Layout max p.name p.value pieces)
    (hn : ¬ (Form.extended p.value).Fits max p.name) : 2 ≤ pieces.length := by
  match pieces, h with
  | [], h => exact absurd rfl h.ne_nil
  | [piece], h =>
    have hv : piece = p.value := by simpa using h.flatten_eq
    obtain ⟨h3, hw⟩ := h.room 0 piece rfl
    rw [Form.fits_extended_iff] at hn
    have hm : charsetMark.length = 7 := by decide
    simp only [columns, Form.extendedWidth, Nat.toDigits_zero, List.length_singleton, if_true, Percent.length_encode,
      hv, hm] at h3 hw hn
    omega
  | _ :: _ :: _, _ => simp

theorem Layout.two_le_length (h : Layout max p.name p.value pieces) (hn : Form.NoOneLineFits max p) :
    2 ≤ pieces.length :=
  h.two_le_length_of_not_fits (hn _ .extended trivial)

/-- No line that filling gives has room for the character that stands next behind it. -/
theorem columns_lt_of_fill (h : (rule max name).fill value = some pieces) {k : Nat} {piece rest : Text} {c : Char}
    (hk : pieces[k]? = some piece) (hr : (pieces.drop (k + 1)).flatten = c :: rest) :
    columns max name k < (Percent.encode piece).length + (Percent.encodeChar c).length := by
  have hroom := room?_eq_some_iff_columns.mpr ⟨((layout_of_fill h).room k piece hk).1, rfl⟩
  have hlt := (Filling.Rule.greedy_fill h).tight k piece c rest _ hk hr hroom
  rw [lineWidth_rule] at hlt
  rw [Percent.length_encode, Percent.length_encodeChar]
  exact hlt

/-- Only the first line that filling gives may be without a piece of the value. -/
theorem ne_nil_of_fill (h : (rule max name).fill value = some pieces) {k : Nat} {piece : Text}
    (hk : pieces[k + 1]? = some piece) : piece ≠ [] := by
  rw [← List.getElem?_tail] at hk
  exact (Filling.Rule.greedy_fill h).ne_nil piece (List.mem_of_getElem? hk)

end Continuation

theorem Percent.flatten_map_encode (pieces : List Text) : (pieces.map encode).flatten = encode pieces.flatten := by
  induction pieces with
  | nil => rfl
  | cons piece pieces ih => rw [List.map_cons, List.flatten_cons, List.flatten_cons, encode_append, ih]

/-- **The exact shape of a parameter on continuation lines.** -/
theorem Encoder.encode_continued (h : Form.choose e.maxLineLength p = .ok (.continued pieces)) (value : Text) :
    2 ≤ pieces.length ∧ pieces.flatten = p.value ∧
    e.encode value [p] = .ok (value ++ (pieces.mapIdx fun k piece =>
      [';', '\r', '\n', ' '] ++ p.name ++ ['*'] ++ Nat.toDigits 10 k ++ ['*', '='] ++
        (if k = 0 then "UTF-8''".toList else []) ++ Percent.encode piece).flatten) ∧
    (∀ k piece, pieces[k + 1]? = some piece → piece ≠ []) ∧
    (pieces.map Percent.encode).flatten = Percent.encode p.value ∧
    (∀ piece ∈ pieces, Percent.decode (Percent.encode piece) = some piece) ∧
    (∀ k piece c rest, pieces[k]? = some piece → (pieces.drop (k + 1)).flatten = c :: rest →
      Continuation.columns e.maxLineLength p.name k <
        (Percent.encode piece).length + (Percent.encodeChar c).length) := by
  obtain ⟨hn, hf⟩ := Form.choose_eq_continued h
  have hl := Continuation.layout_of_fill hf
  refine ⟨hl.two_le_length hn, hl.flatten_eq, ?_, fun k piece hk => Continuation.ne_nil_of_fill hf hk, ?_,
    fun piece _ => Percent.decode_encode piece, fun k piece c rest hk hr => Continuation.columns_lt_of_fill hf hk hr⟩
  · rw [encode_cons_of_ok h, encode_nil, Form.render_continued]
    simp only [Continuation.header, ← List.append_assoc]
    rfl
  · rw [Percent.flatten_map_encode, hl.flatten_eq]

/-- The same two characters: line 1 has one column left, and the second character takes nine. -/
theorem Encoder.continued_first_empty :
    Form.choose 17 ⟨['n'], ['€', '€']⟩ = .ok (.continued [[], ['€'], ['€']]) ∧
    (Encoder.mk 17).encode ['x'] [⟨['n'], ['€', '€']⟩] =
      .ok "x;\r\n n*0*=UTF-8'';\r\n n*1*=%E2%82%AC;\r\n n*2*=%E2%82%AC".toList ∧
    Continuation.columns 17 ['n'] 1 < (Percent.encode ['€']).length + (Percent.encodeChar '€').length := by
  have h : Form.choose 17 ⟨['n'], ['€', '€']⟩ = .ok (.continued [[], ['€'], ['€']]) := by cbv
  obtain ⟨_, _, henc, _, _, _, htight⟩ := encode_continued (e := ⟨17⟩) h ['x']
  exact ⟨h, henc.trans (by cbv), htight 1 ['€'] '€' [] rfl rfl⟩

end FoldedHeader
