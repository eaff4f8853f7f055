import FoldedHeader.Continuation
import FoldedHeader.Parameter
import FoldedHeader.QuotedString

/-!
# The form in which a parameter is written

A value is written as a token, as a quoted-string, percent-encoded on one line, or percent-encoded on continuation
lines. `Form.choose` takes the first of these, in this order, that is open to the value and fits the line limit; only
continuation lines can fail, when the name leaves too little room. `Form.lines` are the lines that a form takes, and
`Form.render` joins them on.
-/

namespace FoldedHeader

/-- A form in which a value is written. -/
inductive Form
  /-- As it is. -/
  | token (value : Text)
  /-- As this quoted-string. -/
  | quoted (text : Text)
  /-- Percent-encoded on one line. -/
  | extended (value : Text)
  /-- Percent-encoded, one piece of it on each of several lines. -/
  | continued (pieces : List Text)
  deriving DecidableEq

namespace Form

/-! ## Writing -/

/-- The lines on which a parameter is written in a form, each without its fold space. -/
def lines (name : Text) : Form → List Text
  | token value => [name ++ ['='] ++ value]
  | quoted text => [name ++ ['='] ++ text]
  | extended value => [name ++ ['*', '='] ++ charsetMark ++ Percent.encode value]
  | continued pieces => pieces.mapIdx fun k piece => Continuation.header name k ++ Percent.encode piece

/-- A parameter as it is written behind the text before it. -/
def render (name : Text) (f : Form) : Text := (f.lines name).flatMap (fold ++ ·)

/-! ## Choosing -/

/-- The columns of a line that has `name` and an equals sign on it: the fold space and the semicolon behind the line
count. -/
def assignmentWidth (name : Text) : Nat := 1 + name.length + 1 + 1

/-- The columns of the one line of a percent-encoded parameter, counted likewise. -/
def extendedWidth (p : Parameter) : Nat :=
  1 + p.name.length + 1 + 1 + charsetMark.length + Percent.encodedLength p.value + 1

/-- The percent-encoded form: on one line if it fits there, and else on continuation lines. -/
def chooseExtended (max : Nat) (p : Parameter) : Except EncodeError Form :=
  if extendedWidth p ≤ max then .ok (extended p.value)
  else
    match (Continuation.rule max p.name).fill p.value with
    | some pieces => .ok (continued pieces)
    | none => .error (.nameTooLong p.name max)

/-- The form for a parameter on lines of at most `max` columns. The number of characters of the value decides first
whether the plain forms are worth a look. -/
def choose (max : Nat) (p : Parameter) : Except EncodeError Form :=
  if assignmentWidth p.name + p.value.length ≤ max && isToken p.value then .ok (token p.value)
  else if assignmentWidth p.name + p.value.length + 2 ≤ max && isQuotable p.value then do
    let width ← QuotedString.quotedLength p.name p.value
    if assignmentWidth p.name + width ≤ max then return quoted (← QuotedString.quote p.name p.value)
    else chooseExtended max p
  else chooseExtended max p

end Form

end FoldedHeader
