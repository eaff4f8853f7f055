/-!
# Character classes of a header field

The classes that decide how a character may be written in a parameter value, each by a test of its own as the grammar
states it. The lemmas relate them: qtext is the visible characters less the two that a quoted-string escapes
(`isQtext_eq`), an attribute character is a token character (`isTokenChar_of_isAttributeChar`), a token character is
visible (`isVchar_of_isTokenChar`), and visible characters are ASCII (`toNat_lt_of_isVchar`).

`CharClass` names the classes, and `classesOf` lists those that hold a character (`mem_classesOf`).
-/

namespace FoldedHeader

/-- A text is its sequence of characters, and its length is their number. -/
abbrev Text := List Char

/-- The special characters: a value that holds one must be quoted or percent-encoded. -/
def tspecials : Text := ['(', ')', '<', '>', '@', ',', ';', ':', '\\', '"', '/', '[', ']', '?', '=']

/-- Is `c` a special character? -/
def isTspecial (c : Char) : Bool := tspecials.contains c

/-- Is `c` a visible ASCII character? -/
def isVchar (c : Char) : Bool := '!' ≤ c && c ≤ '~'

/-- Is `c` a space or a tab? -/
def isWsp (c : Char) : Bool := c == ' ' || c == '\t'

/-- May `c` stand in a quoted-string as it is, white space apart? -/
def isQtext (c : Char) : Bool := c == '!' || ('#' ≤ c && c ≤ '[') || (']' ≤ c && c ≤ '~')

/-- May `c` stand in a token? -/
def isTokenChar (c : Char) : Bool := isVchar c && !isTspecial c

/-- May `c` stand as it is in a percent-encoded value? The three characters with a meaning there may not. -/
def isAttributeChar (c : Char) : Bool := isTokenChar c && !(c == '*' || c == '\'' || c == '%')

/-- A token is a non-empty text of token characters. -/
def isToken (s : Text) : Bool := !s.isEmpty && s.all isTokenChar

/-! ## How the classes are related -/

theorem isVchar_iff {c : Char} : isVchar c = true ↔ 33 ≤ c.toNat ∧ c.toNat ≤ 126 := by
  simp [isVchar, Char.le_def, UInt32.le_iff_toNat_le]

theorem isQtext_iff {c : Char} : isQtext c = true ↔
    c.toNat = 33 ∨ (35 ≤ c.toNat ∧ c.toNat ≤ 91) ∨ (93 ≤ c.toNat ∧ c.toNat ≤ 126) := by
  simp [isQtext, Char.le_def, UInt32.le_iff_toNat_le, ← Char.toNat_inj, or_assoc]

/-- Qtext is the visible characters less the quote and the backslash. -/
theorem isQtext_eq (c : Char) : isQtext c = (isVchar c && !(c == '"' || c == '\\')) := by
  rw [Bool.eq_iff_iff]
  simp [isQtext_iff, isVchar_iff, ← Char.toNat_inj]
  omega

theorem isTokenChar_of_isAttributeChar {c : Char} (h : isAttributeChar c = true) : isTokenChar c = true := by
  simp only [isAttributeChar, Bool.and_eq_true] at h
  exact h.1

theorem isVchar_of_isTokenChar {c : Char} (h : isTokenChar c = true) : isVchar c = true := by
  simp only [isTokenChar, Bool.and_eq_true] at h
  exact h.1

theorem isTokenChar_of_mem {s : Text} {c : Char} (h : isToken s = true) (hc : c ∈ s) : isTokenChar c = true := by
  simp only [isToken, Bool.and_eq_true] at h
  exact List.all_eq_true.mp h.2 c hc

theorem toNat_lt_of_isVchar {c : Char} (h : isVchar c = true) : c.toNat < 128 := by
  have := isVchar_iff.mp h
  omega

theorem toNat_lt_of_isAttributeChar {c : Char} (h : isAttributeChar c = true) : c.toNat < 128 :=
  toNat_lt_of_isVchar (isVchar_of_isTokenChar (isTokenChar_of_isAttributeChar h))

theorem toNat_lt_of_isWsp {c : Char} (h : isWsp c = true) : c.toNat < 128 := by
  simp only [isWsp, Bool.or_eq_true, beq_iff_eq] at h
  rcases h with rfl | rfl <;> decide

/-- ASCII characters are the characters of one byte. -/
theorem utf8Size_of_ascii {c : Char} (h : c.toNat < 128) : c.utf8Size = 1 := by
  rw [Char.utf8Size_eq_one_iff, UInt32.le_iff_toNat_le]
  exact Nat.le_of_lt_succ h

/-! ## The classes by name -/

/-- The character classes. -/
inductive CharClass
  | attributeChar
  | qtext
  | tokenChar
  | tspecial
  | vchar
  | wsp
  deriving DecidableEq

namespace CharClass

/-- Every class, in the order in which they are listed. -/
def all : List CharClass := [attributeChar, qtext, tokenChar, tspecial, vchar, wsp]

def contains : CharClass → Char → Bool
  | attributeChar => isAttributeChar
  | qtext => isQtext
  | tokenChar => isTokenChar
  | tspecial => isTspecial
  | vchar => isVchar
  | wsp => isWsp

end CharClass

/-- The classes that hold `c`, in the order of `CharClass.all`. -/
def classesOf (c : Char) : List CharClass := CharClass.all.filter (·.contains c)

theorem mem_classesOf {c : Char} {k : CharClass} : k ∈ classesOf c ↔ k.contains c = true := by
  cases k <;> simp [classesOf, CharClass.all]

end FoldedHeader
