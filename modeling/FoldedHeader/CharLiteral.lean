import FoldedHeader.CharClass
import FoldedHeader.Unicode.DefaultIgnorable
import FoldedHeader.Unicode.ExtendingMark
import FoldedHeader.Unicode.Unprintable

/-!
# Characters in messages

A message shows a character between single quotes, so that the reader can tell which one it is: the six characters
with a short escape by that escape, those that cannot be seen on their own (`CharLiteral.isHidden`) by their code point
in hexadecimal, and all others as they are (`CharLiteral.render`).
-/

namespace FoldedHeader.CharLiteral

/-- The code point of `c`, in lower-case hexadecimal between braces. -/
def codePoint (c : Char) : Text := ['\\', 'u', '\x7b'] ++ Nat.toDigits 16 c.toNat ++ ['\x7d']

/-- Can `c` not be seen on its own? -/
def isHidden (c : Char) : Bool :=
  Unicode.isUnprintable c || Unicode.isExtendingMark c || Unicode.isDefaultIgnorable c

/-- A character as it stands between the quotes. A double quote needs no escape there. -/
def escapeChar (c : Char) : Text :=
  if c = '\x00' then ['\\', '0']
  else if c = '\t' then ['\\', 't']
  else if c = '\n' then ['\\', 'n']
  else if c = '\r' then ['\\', 'r']
  else if c = '\'' then ['\\', '\'']
  else if c = '\\' then ['\\', '\\']
  else if isHidden c then codePoint c
  else [c]

/-- A character between single quotes. -/
def render (c : Char) : Text := '\'' :: escapeChar c ++ ['\'']

theorem isHidden_eq_false_of_isVchar {c : Char} (h : isVchar c = true) : isHidden c = false := by
  have hr := isVchar_iff.mp h
  have hlt := toNat_lt_of_isVchar h
  simp [isHidden, Unicode.isUnprintable_eq_false_of_ascii (show 32 ≤ c.toNat by omega) (by omega),
    Unicode.isExtendingMark_eq_false_of_lt hlt, Unicode.isDefaultIgnorable_eq_false_of_lt hlt]

/-- Visible ASCII is shown as it is, the single quote and the backslash apart. -/
theorem render_of_isVchar {c : Char} (h : isVchar c = true) (hq : c ≠ '\'') (hb : c ≠ '\\') :
    render c = ['\'', c, '\''] := by
  have hr := isVchar_iff.mp h
  have hne : ∀ d : Char, d.toNat < 33 → c ≠ d := fun d hd hcd => by subst hcd; omega
  simp [render, escapeChar, hq, hb, hne '\x00' (by decide), hne '\t' (by decide), hne '\n' (by decide),
    hne '\r' (by decide), isHidden_eq_false_of_isVchar h]

end FoldedHeader.CharLiteral
