import FoldedHeader.Unicode.CodeRanges

/-!
# Characters that leave nothing to see

The Unicode property `Default_Ignorable_Code_Point`, version 17.0: joiners, variation selectors, fillers and the like.
Some of them are letters by their general category, as the fillers that stand for a missing part of a syllable, and yet
show nothing. The ranges are in order and apart (`ordered_defaultIgnorable`), and none of them is ASCII
(`isDefaultIgnorable_eq_false_of_lt`).
-/

namespace FoldedHeader.Unicode

/-- The code points with the property, as ranges. -/
def defaultIgnorable : CodeRanges := [
    (0xad, 0xad), (0x34f, 0x34f), (0x61c, 0x61c), (0x115f, 0x1160), (0x17b4, 0x17b5), (0x180b, 0x180f),
    (0x200b, 0x200f), (0x202a, 0x202e), (0x2060, 0x206f), (0x3164, 0x3164), (0xfe00, 0xfe0f), (0xfeff, 0xfeff),
    (0xffa0, 0xffa0), (0xfff0, 0xfff8), (0x1bca0, 0x1bca3), (0x1d173, 0x1d17a), (0xe0000, 0xe0fff)]

theorem ordered_defaultIgnorable : defaultIgnorable.ordered = true := by
  decide

/-- May a display ignore `c`, so that there is nothing to see? -/
def isDefaultIgnorable (c : Char) : Bool := defaultIgnorable.contains c

/-- No ASCII character may be ignored. -/
theorem isDefaultIgnorable_eq_false_of_lt {c : Char} (h : c.toNat < 128) : isDefaultIgnorable c = false :=
  CodeRanges.contains_eq_false_of_lt (by decide) h

end FoldedHeader.Unicode
