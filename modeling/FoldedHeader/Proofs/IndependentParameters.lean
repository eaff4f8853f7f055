import FoldedHeader.HeaderValue
import FoldedHeader.Proofs.ChosenForms

/-!
# Parameters are encoded independently

What is written for a parameter does not depend on the value and the parameters before it, nor on those behind it. An
encoding succeeds just if each parameter can be encoded alone, and gives what these encodings give
(`encode_eq_ok_iff_alone`); otherwise it ends at the first parameter that cannot, and its name is too long
(`encode_eq_error_iff`). No value has a character for which encoding fails.
-/

namespace FoldedHeader.Encoder

variable {e : Encoder} {p : Parameter} {ps : List Parameter} {value out : Text} {err : EncodeError}

/-- A parameter can be encoded alone just if there is a form for it. -/
theorem exists_encode_singleton_iff :
    (∃ text, e.encode [] [p] = .ok text) ↔ ∃ f, Form.choose e.maxLineLength p = .ok f := by
  simp only [encode_singleton_eq_ok_iff]
  constructor
  · rintro ⟨_, f, hf, _⟩
    exact ⟨f, hf⟩
  · rintro ⟨f, hf⟩
    exact ⟨_, f, hf, rfl⟩

theorem not_alone_of_error (h : Form.choose e.maxLineLength p = .error err) :
    ¬ ∃ text, e.encode [] [p] = .ok text := by
  rw [exists_encode_singleton_iff, h]
  rintro ⟨f, hf⟩
  cases hf

/-- A parameter that can be encoded alone is written so before the others. -/
theorem encode_cons_of_alone {text : Text} (h : e.encode [] [p] = .ok text) (value : Text) (ps : List Parameter) :
    e.encode value (p :: ps) = e.encode (value ++ text) ps := by
  obtain ⟨f, hf, rfl⟩ := encode_singleton_eq_ok_iff.mp h
  exact encode_cons_of_ok hf value ps

/-- **Encoding succeeds just if each parameter can be encoded alone**, and writes what is then written for each. -/
theorem encode_eq_ok_iff_alone : e.encode value ps = .ok out ↔
    ∃ texts, List.Forall₂ (fun p text => e.encode [] [p] = .ok text) ps texts ∧ out = value ++ texts.flatten := by
  constructor
  · intro h
    obtain ⟨fs, hfs, rfl⟩ := encode_eq_ok_iff.mp h
    clear h
    induction hfs generalizing value with
    | nil => exact ⟨[], .nil, by simp [Form.blocks]⟩
    | @cons p f ps fs hf _ ih =>
      obtain ⟨texts, halone, heq⟩ := @ih (value ++ f.render p.name)
      have hp : e.encode [] [p] = .ok (f.render p.name) := encode_singleton_eq_ok_iff.mpr ⟨f, hf, rfl⟩
      refine ⟨f.render p.name :: texts, .cons hp halone, ?_⟩
      rw [List.flatten_cons, ← List.append_assoc, ← heq]
      simp [Form.blocks, Form.render]
  · rintro ⟨texts, halone, rfl⟩
    induction halone generalizing value with
    | nil => simp
    | cons hp _ ih => rw [encode_cons_of_alone hp, ih, List.flatten_cons, List.append_assoc]

/-- **Encoding ends at the first parameter that cannot be encoded alone**: its name is too long. -/
theorem encode_eq_error_iff : e.encode value ps = .error err ↔
    ∃ before p after, ps = before ++ p :: after ∧ (∀ q ∈ before, ∃ text, e.encode [] [q] = .ok text) ∧
      (¬ ∃ text, e.encode [] [p] = .ok text) ∧ err = .nameTooLong p.name e.maxLineLength := by
  constructor
  · intro h
    rcases chooses_or_first e ps with ⟨fs, hfs⟩ | ⟨before, fs, p, after, rfl, hfs, hp⟩
    · rw [hfs.encode_eq] at h
      cases h
    · have herr : e.encode value (before ++ p :: after) = .error (.nameTooLong p.name e.maxLineLength) :=
        congrArg Report.result (hfs.report_of_error hp value after)
      rw [herr, Except.error.injEq] at h
      refine ⟨before, p, after, rfl, ?_, not_alone_of_error hp, h.symm⟩
      intro q hq
      exact exists_encode_singleton_iff.mpr (hfs.exists_of_mem hq)
  · rintro ⟨before, p, after, rfl, hbefore, hp, rfl⟩
    obtain ⟨fs, hfs⟩ := exists_chooses fun q hq => exists_encode_singleton_iff.mp (hbefore q hq)
    rw [exists_encode_singleton_iff] at hp
    cases hc : Form.choose e.maxLineLength p with
    | ok f => exact absurd ⟨f, hc⟩ hp
    | error err =>
      rw [Form.choose_eq_error hc] at hc
      exact congrArg Report.result (hfs.report_of_error hc value after)

/-- The only cause for which an encoding fails is a name that is too long. -/
theorem encode_ne_unencodable (e : Encoder) (value : Text) (ps : List Parameter) (name : Text) (c : Char) :
    e.encode value ps ≠ .error (.unencodableCharacter name c) := by
  intro h
  obtain ⟨_, _, _, _, _, _, herr⟩ := encode_eq_error_iff.mp h
  cases herr

theorem headerLine_ne_unencodable (e : Encoder) (headerName value : Text) (ps : List Parameter) (name : Text)
    (c : Char) : e.headerLine headerName value ps ≠ .error (.unencodableCharacter name c) := by
  intro h
  cases henc : e.encode value ps with
  | ok out =>
    rw [headerLine, henc] at h
    cases h
  | error err =>
    rw [headerLine, henc] at h
    exact encode_ne_unencodable e value ps name c (henc.trans h)

/-- **Parameters are encoded independently, and an error is that of the first that fails alone.** No character of a
value is a cause to fail, nor is it for a header line or a header value. -/
theorem encode_independent (e : Encoder) (value : Text) (ps : List Parameter) :
    ((∃ out, e.encode value ps = .ok out) ↔ ∀ p ∈ ps, ∃ text, e.encode [] [p] = .ok text) ∧
    (∀ out, e.encode value ps = .ok out ↔
      ∃ texts, List.Forall₂ (fun p text => e.encode [] [p] = .ok text) ps texts ∧ out = value ++ texts.flatten) ∧
    (∀ err, e.encode value ps = .error err ↔
      ∃ before p after, ps = before ++ p :: after ∧ (∀ q ∈ before, ∃ text, e.encode [] [q] = .ok text) ∧
        (¬ ∃ text, e.encode [] [p] = .ok text) ∧ err = .nameTooLong p.name e.maxLineLength) ∧
    ∀ name c, e.encode value ps ≠ .error (.unencodableCharacter name c) ∧
      (∀ headerName, e.headerLine headerName value ps ≠ .error (.unencodableCharacter name c)) ∧
      ∀ h : HeaderValue, h.encode e ≠ .error (.unencodableCharacter name c) := by
  refine ⟨⟨?_, fun halone => ?_⟩, fun _ => encode_eq_ok_iff_alone, fun _ => encode_eq_error_iff, fun name c => ?_⟩
  · rintro ⟨out, h⟩ p hp
    obtain ⟨fs, hfs, _⟩ := encode_eq_ok_iff.mp h
    exact exists_encode_singleton_iff.mpr (hfs.exists_of_mem hp)
  · obtain ⟨fs, hfs⟩ := exists_chooses fun p hp => exists_encode_singleton_iff.mp (halone p hp)
    exact ⟨_, hfs.encode_eq value⟩
  · exact ⟨encode_ne_unencodable e value ps name c,
      fun headerName => headerLine_ne_unencodable e headerName value ps name c,
      fun h => encode_ne_unencodable e h.value h.parameters.entries name c⟩

end FoldedHeader.Encoder
