import FoldedHeader.Proofs.ChosenForms

/-!
# Larger limits

A larger limit leaves more columns on every line, so whatever fits within one limit fits within a larger one
(`Layout.mono`, `Form.Fits.mono`). A layout stays a layout, and filling finds one with no more lines; a form of one line
that comes to fit is one line only. So with a larger limit an encoder still writes all that it wrote, and no parameter
takes more lines (`encode_of_le`).

If the limit leaves twelve columns on every line that can be needed, one character on each is a layout
(`layout_singletons`), and encoding succeeds for all values (`encode_of_enough_room`).
-/

namespace FoldedHeader

variable {max max' : Nat}

/-! ## Layouts within a larger limit -/

namespace Continuation

variable {name value : Text} {pieces : List Text}

theorem columns_mono (h : max ≤ max') (name : Text) (k : Nat) : columns max name k ≤ columns max' name k :=
  Nat.sub_le_sub_right h _

/-- A layout is one within a larger limit too. -/
theorem Layout.mono (h : max ≤ max') (hl : Layout max name value pieces) : Layout max' name value pieces := by
  refine ⟨hl.ne_nil, hl.flatten_eq, fun k piece hk => ?_⟩
  obtain ⟨h3, hw⟩ := hl.room k piece hk
  have hle := columns_mono h name k
  exact ⟨Nat.le_trans h3 hle, Nat.le_trans hw hle⟩

end Continuation

namespace Form

variable {p : Parameter} {f : Form} {name : Text}

theorem Fits.mono (h : max ≤ max') (hf : f.Fits max name) : f.Fits max' name :=
  fun line hl => Nat.le_trans (hf line hl) h

theorem NoOneLineFits.anti (h : max ≤ max') (hn : NoOneLineFits max' p) : NoOneLineFits max p :=
  fun f hw ho hf => hn f hw ho (hf.mono h)

theorem OneLine.length_lines (h : f.OneLine) (name : Text) : (f.lines name).length = 1 := by
  cases f with
  | token _ => rfl
  | quoted _ => rfl
  | extended _ => rfl
  | continued _ => exact h.elim

theorem length_lines_continued (name : Text) (pieces : List Text) :
    ((continued pieces).lines name).length = pieces.length := List.length_mapIdx

/-- A parameter takes one line at least. -/
theorem Writes.length_lines_pos (hw : f.Writes p) (name : Text) : 1 ≤ (f.lines name).length := by
  cases hw with
  | token _ => exact Nat.le_refl 1
  | quoted _ => exact Nat.le_refl 1
  | extended => exact Nat.le_refl 1
  | continued hne _ =>
    rw [length_lines_continued]
    exact List.length_pos_iff.mpr hne

/-- **With a larger limit there is still a form for a parameter, and it takes no more lines.** -/
theorem choose_of_le (h : max ≤ max') (hc : choose max p = .ok f) (name : Text) :
    ∃ f', choose max' p = .ok f' ∧ (f'.lines name).length ≤ (f.lines name).length := by
  rcases choose_cases max' p with ⟨f', _, ho, _, hc'⟩ | ⟨hn, hc'⟩
  · refine ⟨f', hc', ?_⟩
    rw [ho.length_lines]
    exact (writes_of_choose hc).1.length_lines_pos name
  · -- neither limit has room for a form of one line, so there was a layout
    obtain ⟨pieces, hfill, rfl⟩ := exists_fill_of_noOneLineFits (hn.anti h) hc
    have hl := (Continuation.layout_of_fill hfill).mono h
    obtain ⟨pieces', hfill', hle⟩ := Continuation.exists_fill_of_layout hl
    refine ⟨continued pieces', ?_, ?_⟩
    · rw [hc', chooseContinued, hfill']
    · rwa [length_lines_continued, length_lines_continued]

end Form

namespace Encoder

variable {e e' : Encoder} {ps : List Parameter} {fs : List Form} {value out : Text}

/-- Forms for parameters become forms with no more lines. -/
theorem Chooses.of_le (h : e.maxLineLength ≤ e'.maxLineLength) (hc : e.Chooses ps fs) :
    ∃ fs', e'.Chooses ps fs' ∧
      List.Forall₂ (fun block block' => block'.length ≤ block.length) (Form.blocks ps fs) (Form.blocks ps fs') := by
  induction hc with
  | nil => exact ⟨[], .nil, .nil⟩
  | @cons p f ps fs hf _ ih =>
    obtain ⟨f', hf', hle⟩ := Form.choose_of_le h hf p.name
    obtain ⟨fs', hfs', hles⟩ := ih
    exact ⟨f' :: fs', .cons hf' hfs', .cons hle hles⟩

/-- **A larger limit never hurts.** What is encoded within a limit is encoded within any larger one, and no parameter
then takes more lines. -/
theorem encode_of_le (h : e.maxLineLength ≤ e'.maxLineLength) (henc : e.encode value ps = .ok out) :
    ∃ fs fs', e.Chooses ps fs ∧ out = value ++ (Form.blocks ps fs).flatten.flatMap (fold ++ ·) ∧
      e'.Chooses ps fs' ∧ e'.encode value ps = .ok (value ++ (Form.blocks ps fs').flatten.flatMap (fold ++ ·)) ∧
      List.Forall₂ (fun block block' => block'.length ≤ block.length) (Form.blocks ps fs) (Form.blocks ps fs') := by
  obtain ⟨fs, hfs, hout⟩ := encode_eq_ok_iff.mp henc
  obtain ⟨fs', hfs', hle⟩ := hfs.of_le h
  exact ⟨fs, fs', hfs, hout, hfs', hfs'.encode_eq value, hle⟩

/-- Seven columns more: the first line of one parameter now has room for a character, and the other takes quotes. -/
theorem larger_limit_fewer_lines :
    let ps : List Parameter := [⟨['n'], "€€".toList⟩, ⟨['q'], "to be, or not".toList⟩]
    17 ≤ 24 ∧ (Encoder.mk 17).encode ['v'] ps = .ok ("v;\r\n n*0*=UTF-8'';\r\n n*1*=%E2%82%AC;\r\n n*2*=%E2%82%AC" ++
      ";\r\n q*0*=UTF-8''to;\r\n q*1*=%20be%2C;\r\n q*2*=%20or%20no;\r\n q*3*=t").toList ∧
    (Encoder.mk 24).encode ['v'] ps = .ok ("v;\r\n n*0*=UTF-8''%E2%82%AC;\r\n n*1*=%E2%82%AC" ++
      ";\r\n q=\"to be, or not\"").toList ∧
    ∃ fs fs', (Encoder.mk 17).Chooses ps fs ∧ (Encoder.mk 24).Chooses ps fs' ∧
      List.Forall₂ (fun block block' => block'.length ≤ block.length) (Form.blocks ps fs) (Form.blocks ps fs') := by
  intro ps
  have h : (Encoder.mk 17).encode ['v'] ps = .ok ("v;\r\n n*0*=UTF-8'';\r\n n*1*=%E2%82%AC;\r\n n*2*=%E2%82%AC" ++
      ";\r\n q*0*=UTF-8''to;\r\n q*1*=%20be%2C;\r\n q*2*=%20or%20no;\r\n q*3*=t").toList := by cbv
  have hmax : (Encoder.mk 17).maxLineLength ≤ (Encoder.mk 24).maxLineLength := by decide
  obtain ⟨fs, fs', hfs, _, hfs', _, hle⟩ := encode_of_le hmax h
  exact ⟨hmax, h, by cbv, fs, fs', hfs, hfs', hle⟩

end Encoder

/-! ## Enough room for all values -/

/-- If the limit leaves twelve columns on the line with the last number, one character on each line behind the first is
a layout. -/
theorem Continuation.layout_singletons {name value : Text}
    (h : name.length + 17 + (Nat.toDigits 10 value.length).length ≤ max) :
    Layout max name value ([] :: value.map fun c => [c]) := by
  refine ⟨List.cons_ne_nil _ _, by simp [← List.flatMap_def], fun k piece hk => ?_⟩
  cases k with
  | zero =>
    have hpos : 0 < (Nat.toDigits 10 value.length).length := Nat.length_toDigits_pos
    rw [List.getElem?_cons_zero, Option.some.injEq] at hk
    rw [← hk, columns, Nat.toDigits_zero]
    simp
    omega
  | succ k =>
    rw [List.getElem?_cons_succ, List.getElem?_map, Option.map_eq_some_iff] at hk
    obtain ⟨c, hc, rfl⟩ := hk
    have hlt : k < value.length := (List.getElem?_eq_some_iff.mp hc).1
    have hdigits := length_toDigits_mono (show k + 1 ≤ value.length from hlt)
    have hwidth := Percent.charWidth_le c
    have hcolumns : 12 ≤ columns max name (k + 1) := by
      rw [columns, if_neg (Nat.succ_ne_zero k)]
      omega
    refine ⟨by omega, ?_⟩
    rw [Percent.length_encode, Percent.encodedLength_cons, Percent.encodedLength_nil]
    omega

/-- With a layout for its value there is a form for a parameter. -/
theorem Form.exists_choose_of_layout {p : Parameter} {pieces : List Text}
    (h : Continuation.Layout max p.name p.value pieces) : ∃ f, choose max p = .ok f := by
  rcases choose_cases max p with ⟨f, _, _, _, hc⟩ | ⟨_, hc⟩
  · exact ⟨f, hc⟩
  · obtain ⟨filled, hfill, _⟩ := Continuation.exists_fill_of_layout h
    exact ⟨continued filled, by rw [hc, chooseContinued, hfill]⟩

/-- **Enough room guarantees success.** If the limit exceeds the length of each name by seventeen and the digits in the
length of its value, encoding succeeds, whatever the values contain. -/
theorem Encoder.encode_of_enough_room {e : Encoder} {ps : List Parameter}
    (h : ∀ p ∈ ps, p.name.length + 17 + (Nat.toDigits 10 p.value.length).length ≤ e.maxLineLength) (value : Text) :
    ∃ out, e.encode value ps = .ok out := by
  obtain ⟨fs, hfs⟩ := exists_chooses (e := e) fun p hp =>
    Form.exists_choose_of_layout (Continuation.layout_singletons (h p hp))
  exact ⟨_, hfs.encode_eq value⟩

/-- The bound is met exactly by the first name: its value is a character of four bytes, which stands on line 1. -/
theorem Encoder.enough_room_four_bytes :
    let ps : List Parameter := [⟨['n'], ['😀']⟩, ⟨[], "\x00\"\r\n".toList⟩]
    (∀ p ∈ ps, p.name.length + 17 + (Nat.toDigits 10 p.value.length).length ≤ 19) ∧
      ∃ out, (Encoder.mk 19).encode ['v'] ps = .ok out := by
  intro ps
  have h : ∀ p ∈ ps, p.name.length + 17 + (Nat.toDigits 10 p.value.length).length ≤ 19 := by decide
  exact ⟨h, encode_of_enough_room (e := ⟨19⟩) h ['v']⟩

/-- One column less can be too few. -/
example : (Encoder.mk 18).encode ['v'] [⟨['n'], ['😀']⟩] = .error (.nameTooLong ['n'] 18) := by cbv

end FoldedHeader
