import FoldedHeader.Event

/-!
# Encoders

An encoder writes a header value with its parameters, each folded onto lines of its own within a limit. A run of it
gives a report: the text or the error of the first parameter that cannot be written, and the events told on the way
(`Encoder.report`). `Encoder.encode` and `Encoder.headerLine` keep the result alone.
-/

namespace FoldedHeader

/-- What an encoder is set to. -/
structure Encoder where
  /-- The limit for a line in characters, the semicolon behind it included and the line break not. -/
  maxLineLength : Nat := 78
  deriving DecidableEq

/-- What a run of an encoder yields. -/
structure Report where
  /-- The events, in order. -/
  events : List Event
  /-- The text, or why there is none. -/
  result : Except EncodeError Text

namespace Encoder

def standard : Encoder := {}

/-- Write the parameters behind the text `out`, until one fails. -/
def report (e : Encoder) (out : Text) : List Parameter → Report
  | [] => ⟨[], .ok out⟩
  | p :: ps =>
    match Form.choose e.maxLineLength p with
    | .ok f =>
      let r := e.report (out ++ f.render p.name) ps
      ⟨f.event p.name :: r.events, r.result⟩
    | .error err => ⟨err.event?.toList, .error err⟩

/-- The header value with its parameters, in their order. -/
def encode (e : Encoder) (value : Text) (ps : List Parameter) : Except EncodeError Text := (e.report value ps).result

/-- The header value with its parameters behind the name of the header field. -/
def headerLine (e : Encoder) (headerName value : Text) (ps : List Parameter) : Except EncodeError Text :=
  (e.encode value ps).map fun t => headerName ++ [':', ' '] ++ t

@[simp] theorem encode_nil (e : Encoder) (value : Text) : e.encode value [] = .ok value := rfl

/-- A parameter for which there is a form is written before the others. -/
theorem encode_cons_of_ok {e : Encoder} {p : Parameter} {f : Form} (h : Form.choose e.maxLineLength p = .ok f)
    (value : Text) (ps : List Parameter) : e.encode value (p :: ps) = e.encode (value ++ f.render p.name) ps := by
  simp only [encode, report, h]

/-- A parameter for which there is none ends the encoding. -/
theorem encode_cons_of_error {e : Encoder} {p : Parameter} {err : EncodeError}
    (h : Form.choose e.maxLineLength p = .error err) (value : Text) (ps : List Parameter) :
    e.encode value (p :: ps) = .error err := by
  simp only [encode, report, h]

/-- A single parameter is written in the form chosen for it, behind the value. -/
theorem encode_singleton (e : Encoder) (value : Text) (p : Parameter) :
    e.encode value [p] = (Form.choose e.maxLineLength p).map fun f => value ++ f.render p.name := by
  cases hc : Form.choose e.maxLineLength p with
  | ok f => rw [encode_cons_of_ok hc, encode_nil]; rfl
  | error err => rw [encode_cons_of_error hc]; rfl

/-- Parameters are encoded one behind the other. -/
theorem encode_cons (e : Encoder) (value : Text) (p : Parameter) (ps : List Parameter) :
    e.encode value (p :: ps) = e.encode value [p] >>= fun out => e.encode out ps := by
  rw [encode_singleton]
  cases hc : Form.choose e.maxLineLength p with
  | ok f => exact encode_cons_of_ok hc value ps
  | error err => exact encode_cons_of_error hc value ps

end Encoder

/-- The header value with its parameters, within the usual limit. -/
def encodeParameters (value : Text) (ps : List Parameter) : Except EncodeError Text := Encoder.standard.encode value ps

end FoldedHeader
