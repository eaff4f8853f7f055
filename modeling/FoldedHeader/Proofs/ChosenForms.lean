import Mathlib
import FoldedHeader.Encoder
import FoldedHeader.Proofs.FormChoice

/-!
# The forms that an encoder chooses

An encoding succeeds just if there is a form for each parameter, and then it writes their lines one behind the other
(`encode_eq_ok_iff`). Otherwise there is a first parameter without a form, and its name is too long
(`chooses_or_first`). The parameters before it are written and told of as if they were all (`Chooses.report_append`).
-/

namespace FoldedHeader

/-- The lines of parameters in their forms, those of each parameter together. -/
def Form.blocks (ps : List Parameter) (fs : List Form) : List (List Text) :=
  List.zipWith (fun p f => f.lines p.name) ps fs

/-- The events that tell of parameters in their forms. -/
def Form.events (ps : List Parameter) (fs : List Form) : List Event := List.zipWith (fun p f => f.event p.name) ps fs

namespace Encoder

/-- The encoder chooses these forms for these parameters. -/
def Chooses (e : Encoder) (ps : List Parameter) (fs : List Form) : Prop :=
  List.Forall₂ (fun p f => Form.choose e.maxLineLength p = .ok f) ps fs

variable {e : Encoder} {ps : List Parameter} {fs : List Form} {value out : Text}

/-- The lines of the forms chosen are written behind the value, and the events tell of them; the parameters behind
follow. -/
theorem Chooses.report_append (h : e.Chooses ps fs) (value : Text) (qs : List Parameter) :
    e.report value (ps ++ qs) =
      let r := e.report (value ++ (Form.blocks ps fs).flatten.flatMap (fold ++ ·)) qs
      ⟨Form.events ps fs ++ r.events, r.result⟩ := by
  induction h generalizing value with
  | nil => simp [Form.blocks, Form.events]
  | cons hf _ ih =>
    simp only [List.cons_append, report, hf, ih, Form.render]
    simp [Form.blocks, Form.events]

theorem Chooses.report_eq (h : e.Chooses ps fs) (value : Text) :
    e.report value ps = ⟨Form.events ps fs, .ok (value ++ (Form.blocks ps fs).flatten.flatMap (fold ++ ·))⟩ := by
  simpa [report] using h.report_append value []

theorem Chooses.encode_eq (h : e.Chooses ps fs) (value : Text) :
    e.encode value ps = .ok (value ++ (Form.blocks ps fs).flatten.flatMap (fold ++ ·)) :=
  congrArg Report.result (h.report_eq value)

/-- A parameter without a form ends the run behind those that have one. -/
theorem Chooses.report_of_error (h : e.Chooses ps fs) {p : Parameter} {err : EncodeError}
    (hp : Form.choose e.maxLineLength p = .error err) (value : Text) (qs : List Parameter) :
    e.report value (ps ++ p :: qs) = ⟨Form.events ps fs ++ err.event?.toList, .error err⟩ := by
  simp only [h.report_append, report, hp]

theorem Chooses.exists_of_mem (h : e.Chooses ps fs) {p : Parameter} (hp : p ∈ ps) :
    ∃ f, Form.choose e.maxLineLength p = .ok f := by
  induction h with
  | nil => cases hp
  | cons hf _ ih =>
    rcases List.mem_cons.mp hp with rfl | hp
    · exact ⟨_, hf⟩
    · exact ih hp

theorem exists_chooses (h : ∀ p ∈ ps, ∃ f, Form.choose e.maxLineLength p = .ok f) : ∃ fs, e.Chooses ps fs := by
  induction ps with
  | nil => exact ⟨[], .nil⟩
  | cons p ps ih =>
    obtain ⟨f, hf⟩ := h p List.mem_cons_self
    obtain ⟨fs, hfs⟩ := ih fun q hq => h q (List.mem_cons_of_mem _ hq)
    exact ⟨f :: fs, .cons hf hfs⟩

/-- **There is a form for each parameter, or the name of one is too long**; before the first such there are forms. -/
theorem chooses_or_first (e : Encoder) (ps : List Parameter) :
    (∃ fs, e.Chooses ps fs) ∨
    ∃ before fs p after, ps = before ++ p :: after ∧ e.Chooses before fs ∧
      Form.choose e.maxLineLength p = .error (.nameTooLong p.name e.maxLineLength) := by
  induction ps with
  | nil => exact Or.inl ⟨[], .nil⟩
  | cons p ps ih =>
    cases hc : Form.choose e.maxLineLength p with
    | error err =>
      rw [Form.choose_eq_error hc] at hc
      exact Or.inr ⟨[], [], p, ps, rfl, .nil, hc⟩
    | ok f =>
      rcases ih with ⟨fs, hfs⟩ | ⟨before, fs, q, after, rfl, hfs, hq⟩
      · exact Or.inl ⟨f :: fs, .cons hc hfs⟩
      · exact Or.inr ⟨p :: before, f :: fs, q, after, rfl, .cons hc hfs, hq⟩

/-- Without a form for each parameter, some name is too long, whatever the value before the parameters. -/
theorem chooses_or_nameTooLong (e : Encoder) (ps : List Parameter) :
    (∃ fs, e.Chooses ps fs) ∨ ∃ p ∈ ps, ∀ value, e.encode value ps = .error (.nameTooLong p.name e.maxLineLength) := by
  refine (chooses_or_first e ps).imp_right ?_
  rintro ⟨before, fs, p, after, rfl, hfs, hp⟩
  refine ⟨p, List.mem_append_right _ List.mem_cons_self, fun value => ?_⟩
  exact congrArg Report.result (hfs.report_of_error hp value after)

/-- **Encoding succeeds just if there is a form for each parameter**, and then writes their lines. -/
theorem encode_eq_ok_iff : e.encode value ps = .ok out ↔
    ∃ fs, e.Chooses ps fs ∧ out = value ++ (Form.blocks ps fs).flatten.flatMap (fold ++ ·) := by
  constructor
  · intro h
    rcases chooses_or_nameTooLong e ps with ⟨fs, hfs⟩ | ⟨p, _, henc⟩
    · rw [hfs.encode_eq, Except.ok.injEq] at h
      exact ⟨fs, hfs, h.symm⟩
    · rw [henc] at h
      cases h
  · rintro ⟨fs, hfs, rfl⟩
    exact hfs.encode_eq value

/-- A single parameter is written in the form chosen for it. -/
theorem encode_singleton_eq_ok_iff {p : Parameter} : e.encode value [p] = .ok out ↔
    ∃ f, Form.choose e.maxLineLength p = .ok f ∧ out = value ++ f.render p.name := by
  cases hc : Form.choose e.maxLineLength p with
  | error err => simp [encode_cons_of_error hc]
  | ok f => simp [encode_cons_of_ok hc, eq_comm]

end Encoder

end FoldedHeader
