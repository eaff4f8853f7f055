import FoldedHeader.Proofs.ChosenForms
import FoldedHeader.Proofs.LineGrammar

/-!
# The lines that an encoder writes

`WrittenAs ps lines` says that `lines` are those of the parameters `ps` one behind the other, each in a form of its own
value. An encoder writes such lines, all within its limit, behind whatever value it is given, or else stops at a
parameter whose name is too long (`encode_cases`).

So no line that is written exceeds the limit, with a header name before the value as well as without
(`encode_keepsLimit`).
-/

namespace FoldedHeader

/-- The lines of parameters one behind the other, each parameter in a form in which its value can be written. -/
inductive WrittenAs : List Parameter → List Text → Prop
  | nil : WrittenAs [] []
  | cons {p : Parameter} {f : Form} {ps : List Parameter} {lines : List Text} :
      f.Writes p → WrittenAs ps lines → WrittenAs (p :: ps) (f.lines p.name ++ lines)

/-- Under visible names, all lines have only white space and visible characters. -/
theorem WrittenAs.classes_of_mem {ps : List Parameter} {lines : List Text} (h : WrittenAs ps lines)
    (hn : ∀ p ∈ ps, ∀ c ∈ p.name, isVchar c = true) {line : Text} (hl : line ∈ lines) {x : Char} (hx : x ∈ line) :
    isWsp x = true ∨ isVchar x = true := by
  induction h with
  | nil => cases hl
  | cons hw _ ih =>
    rcases List.mem_append.mp hl with hl | hl
    · exact (hw.parameterLine hl).classes (hn _ List.mem_cons_self) hx
    · exact ih (fun q hq => hn q (List.mem_cons_of_mem _ hq)) hl

/-! ## Encoding -/

namespace Encoder

variable {e : Encoder}

/-- The lines of the forms chosen, and that they are within the limit. -/
theorem Chooses.writtenAs {ps : List Parameter} {fs : List Form} (h : e.Chooses ps fs) :
    WrittenAs ps (Form.blocks ps fs).flatten ∧
      ∀ line ∈ (Form.blocks ps fs).flatten, 1 + line.length + 1 ≤ e.maxLineLength := by
  induction h with
  | nil => exact ⟨.nil, by simp [Form.blocks]⟩
  | cons hc _ ih =>
    obtain ⟨hw, hf⟩ := Form.writes_of_choose hc
    refine ⟨.cons hw ih.1, fun line hl => ?_⟩
    exact (List.mem_append.mp hl).elim (hf line) (ih.2 line)

/-- **An encoder writes lines within its limit or stops at a name that is too long**, whatever the value before
them. -/
theorem encode_cases (e : Encoder) (ps : List Parameter) :
    (∃ lines, WrittenAs ps lines ∧ (∀ line ∈ lines, 1 + line.length + 1 ≤ e.maxLineLength) ∧
      ∀ value, e.encode value ps = .ok (value ++ lines.flatMap (fold ++ ·))) ∨
    ∃ p ∈ ps, ∀ value, e.encode value ps = .error (.nameTooLong p.name e.maxLineLength) := by
  refine (chooses_or_nameTooLong e ps).imp_left ?_
  rintro ⟨fs, hfs⟩
  exact ⟨_, hfs.writtenAs.1, hfs.writtenAs.2, hfs.encode_eq⟩

/-! ## The line limit -/

/-- What a line limit asks of the result of writing parameters behind the text `start`: each piece behind it is a
semicolon, a line break and a line that begins with the fold space and leaves a column for the next semicolon; or there
is a parameter whose name is too long. -/
def KeepsLimit (max : Nat) (ps : List Parameter) (start : Text) : Except EncodeError Text → Prop
  | .ok out => ∃ lines, WrittenAs ps lines ∧
      out = start ++ lines.flatMap (fun line => [';', '\r', '\n'] ++ ' ' :: line) ∧
      ∀ line ∈ lines, (' ' :: line).length + 1 ≤ max
  | .error err => ∃ p ∈ ps, err = .nameTooLong p.name max

/-- **No line exceeds the limit.** Where some line of every way to write the parameters would, they are not written. -/
theorem encode_keepsLimit (e : Encoder) (headerName value : Text) (ps : List Parameter) :
    KeepsLimit e.maxLineLength ps value (e.encode value ps) ∧
    KeepsLimit e.maxLineLength ps (headerName ++ [':', ' '] ++ value) (e.headerLine headerName value ps) ∧
    ((∀ lines, WrittenAs ps lines → ∃ line ∈ lines, e.maxLineLength < (' ' :: line).length + 1) →
      ∃ p ∈ ps, e.encode value ps = .error (.nameTooLong p.name e.maxLineLength) ∧
        e.headerLine headerName value ps = .error (.nameTooLong p.name e.maxLineLength)) := by
  rcases encode_cases e ps with ⟨lines, hw, hfit, henc⟩ | ⟨p, hp, henc⟩
  · have hle : ∀ line ∈ lines, (' ' :: line).length + 1 ≤ e.maxLineLength := by
      intro line hl
      have := hfit line hl
      rw [List.length_cons]
      omega
    refine ⟨?_, ?_, fun hlong => ?_⟩
    · rw [henc]
      exact ⟨lines, hw, rfl, hle⟩
    · rw [headerLine, henc]
      exact ⟨lines, hw, (List.append_assoc _ _ _).symm, hle⟩
    · obtain ⟨line, hl, hlt⟩ := hlong lines hw
      exact absurd (hle line hl) (Nat.not_le_of_lt hlt)
  · have hheader : e.headerLine headerName value ps = .error (.nameTooLong p.name e.maxLineLength) := by
      rw [headerLine, henc]
      rfl
    refine ⟨?_, ?_, fun _ => ⟨p, hp, henc value, hheader⟩⟩
    · rw [henc]
      exact ⟨p, hp, rfl⟩
    · rw [hheader]
      exact ⟨p, hp, rfl⟩

end Encoder

end FoldedHeader
