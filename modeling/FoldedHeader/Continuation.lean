import FoldedHeader.Filling
import FoldedHeader.Percent

/-!
# Numbered continuation lines

A percent-encoded value that is too long for one line is divided over several, numbered from 0, each under a header of
the parameter's name and the number (`Continuation.header`); line 0 also names the character set. `headerWidth` tells
the columns of a header without writing it, the fold space before it included (`length_header`). What the header and
the semicolon after the line leave is the room for the value (`room?`), and it has to be enough for one triplet.

A character is never divided, so the lines are filled with characters by the rule `Continuation.rule`.
-/

namespace FoldedHeader

/-- What a folded line is joined on with: a semicolon behind the line before, a line break and the fold space. -/
def fold : Text := [';', '\r', '\n', ' ']

/-- The mark before an encoded value that names its character set and leaves out its language. -/
def charsetMark : Text := "UTF-8''".toList

namespace Continuation

/-- The mark on line `k`: only the first line has one. -/
def mark (k : Nat) : Text := if k = 0 then charsetMark else []

/-- What stands on line `k` between the fold space and the value. -/
def header (name : Text) (k : Nat) : Text := name ++ ['*'] ++ Nat.toDigits 10 k ++ ['*', '='] ++ mark k

/-- The columns of line `k` before the value: the fold space, the name, a star, the number, a star, an equals sign and
the mark. -/
def headerWidth (name : Text) (k : Nat) : Nat :=
  1 + name.length + 1 + (Nat.toDigits 10 k).length + 2 + if k = 0 then charsetMark.length else 0

theorem length_header (name : Text) (k : Nat) : (header name k).length + 1 = headerWidth name k := by
  simp only [header, headerWidth, mark, List.length_append, List.length_cons, List.length_nil, apply_ite List.length]
  omega

/-- The columns for the value on line `k`, if at least one triplet has room there. -/
def room? (max : Nat) (name : Text) (k : Nat) : Option Nat :=
  if headerWidth name k + 1 + 3 ≤ max then some (max - (headerWidth name k + 1)) else none

theorem room?_eq_some_iff {max : Nat} {name : Text} {k room : Nat} :
    room? max name k = some room ↔ headerWidth name k + 1 + room = max ∧ 3 ≤ room := by
  unfold room?
  split <;> simp <;> omega

/-- The lines are as wide as the headers leave them, and a character takes the columns of its encoded form. -/
def rule (max : Nat) (name : Text) : Filling.Rule Char := ⟨room? max name, Percent.charWidth⟩

/-- The columns of a piece of the value are those of its encoded form. -/
theorem lineWidth_rule (max : Nat) (name : Text) :
    ∀ piece : Text, (rule max name).lineWidth piece = Percent.encodedLength piece
  | [] => rfl
  | c :: piece => congrArg (Percent.charWidth c + ·) (lineWidth_rule max name piece)

end Continuation

end FoldedHeader
