/-!
# Sets of code points

A property of characters is given as the list of the ranges of code points that have it. Membership looks at every
range; `ordered` says of such a table that its ranges are in order, none empty and none touching the next.
-/

namespace FoldedHeader.Unicode

/-- Ranges of code points, each by its first and its last. -/
abbrev CodeRanges := List (Nat × Nat)

namespace CodeRanges

/-- Is `c` in one of the ranges? -/
def contains (rs : CodeRanges) (c : Char) : Bool := rs.any fun r => r.1 ≤ c.toNat && c.toNat ≤ r.2

/-- Are the ranges in order and apart? -/
def ordered : CodeRanges → Bool
  | [] => true
  | [r] => r.1 ≤ r.2
  | r :: s :: rs => r.1 ≤ r.2 && r.2 + 1 < s.1 && ordered (s :: rs)

theorem contains_iff {rs : CodeRanges} {c : Char} :
    rs.contains c = true ↔ ∃ r ∈ rs, r.1 ≤ c.toNat ∧ c.toNat ≤ r.2 := by
  simp [contains]

/-- A character before every range is in none. -/
theorem contains_eq_false_of_lt {rs : CodeRanges} {k : Nat} {c : Char} (hk : rs.all (k ≤ ·.1) = true)
    (hc : c.toNat < k) : rs.contains c = false := by
  rw [Bool.eq_false_iff, ne_eq, contains_iff]
  rintro ⟨r, hr, hle, -⟩
  have := of_decide_eq_true (List.all_eq_true.mp hk r hr)
  omega

end CodeRanges

end FoldedHeader.Unicode
