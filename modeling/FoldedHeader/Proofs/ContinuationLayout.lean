import FoldedHeader.Continuation
import FoldedHeader.Proofs.GreedyFilling

/-!
# Layouts of a value on continuation lines

`Continuation.Layout` says directly, from the lengths of what is written, when a value divided into pieces can stand on
numbered lines; it is what the rule for filling such lines admits (`layout_iff`). Numbers only get longer, so the lines
behind the first only get narrower (`narrowing_rule`). Hence filling finds a layout whenever there is one, and none has
fewer lines (`fill_eq_none_iff`, `layout_of_fill`, `length_le_of_fill`).
-/

namespace FoldedHeader.Continuation

open Filling

variable {max : Nat} {name value : Text} {pieces : List Text}

/-- The columns that the header of line `k` and the semicolon leave on a line of `max` columns. -/
def columns (max : Nat) (name : Text) (k : Nat) : Nat :=
  max - (name.length + 5 + (Nat.toDigits 10 k).length + if k = 0 then 7 else 0)

/-- A division of a value into pieces of whole characters, each of which its numbered line has room for; the room on
each line is enough for one triplet. -/
structure Layout (max : Nat) (name value : Text) (pieces : List Text) : Prop where
  ne_nil : pieces ≠ []
  flatten_eq : pieces.flatten = value
  room : ∀ k piece, pieces[k]? = some piece →
    3 ≤ columns max name k ∧ (Percent.encode piece).length ≤ columns max name k

theorem headerWidth_eq (name : Text) (k : Nat) :
    headerWidth name k + 1 = name.length + 5 + (Nat.toDigits 10 k).length + if k = 0 then 7 else 0 := by
  have hm : charsetMark.length = 7 := by decide
  unfold headerWidth
  rw [hm]
  omega

/-- A line can be opened when it has room for a triplet, and then has all the columns that are left. -/
theorem room?_eq_some_iff_columns {k room : Nat} :
    room? max name k = some room ↔ 3 ≤ columns max name k ∧ room = columns max name k := by
  rw [room?_eq_some_iff, headerWidth_eq, columns]
  omega

/-- The lines that the rule for filling admits are the layouts. -/
theorem layout_iff : (rule max name).Layout value pieces ↔ Layout max name value pieces := by
  constructor
  · rintro ⟨hne, hflat, hfits⟩
    refine ⟨hne, hflat, fun k piece hk => ?_⟩
    obtain ⟨room, hroom, hw⟩ := hfits k piece hk
    obtain ⟨h3, rfl⟩ := room?_eq_some_iff_columns.mp hroom
    rw [lineWidth_rule] at hw
    exact ⟨h3, by rwa [Percent.length_encode]⟩
  · rintro ⟨hne, hflat, hroom⟩
    refine ⟨hne, hflat, fun k piece hk => ?_⟩
    obtain ⟨h3, hw⟩ := hroom k piece hk
    refine ⟨_, room?_eq_some_iff_columns.mpr ⟨h3, rfl⟩, ?_⟩
    rwa [lineWidth_rule, ← Percent.length_encode]

theorem length_toDigits_mono {j k : Nat} (h : j ≤ k) : (Nat.toDigits 10 j).length ≤ (Nat.toDigits 10 k).length := by
  have hk : k < 10 ^ (Nat.toDigits 10 k).length :=
    (Nat.length_toDigits_le_iff (by decide) Nat.length_toDigits_pos).mp (Nat.le_refl _)
  exact (Nat.length_toDigits_le_iff (by decide) Nat.length_toDigits_pos).mpr (Nat.lt_of_le_of_lt h hk)

/-- Behind the first, continuation lines only get narrower. -/
theorem narrowing_rule (max : Nat) (name : Text) : (rule max name).Narrowing := by
  intro j k room hj hjk hroom
  obtain ⟨h3, rfl⟩ := room?_eq_some_iff_columns.mp hroom
  have hle : columns max name k ≤ columns max name j := by
    have := length_toDigits_mono hjk
    simp only [columns, if_neg (show j ≠ 0 by omega), if_neg (show k ≠ 0 by omega)]
    omega
  exact ⟨_, room?_eq_some_iff_columns.mpr ⟨Nat.le_trans h3 hle, rfl⟩, hle⟩

/-- **Filling gets through whenever there is a layout**, with no more lines. -/
theorem exists_fill_of_layout (h : Layout max name value pieces) :
    ∃ filled, (rule max name).fill value = some filled ∧ filled.length ≤ pieces.length :=
  Rule.exists_fill_of_layout (narrowing_rule max name) (layout_iff.mpr h)

theorem layout_of_fill (h : (rule max name).fill value = some pieces) : Layout max name value pieces :=
  layout_iff.mp (Rule.layout_fill h)

/-- Filling gets stuck just where there is no layout. -/
theorem fill_eq_none_iff : (rule max name).fill value = none ↔ ¬ ∃ pieces, Layout max name value pieces := by
  constructor
  · rintro h ⟨pieces, hl⟩
    obtain ⟨filled, hfill, _⟩ := exists_fill_of_layout hl
    rw [h] at hfill
    cases hfill
  · intro hno
    cases hfill : (rule max name).fill value with
    | none => rfl
    | some pieces => exact absurd ⟨pieces, layout_of_fill hfill⟩ hno

/-- No layout has fewer lines than filling gives. -/
theorem length_le_of_fill {pieces' : List Text} (h : (rule max name).fill value = some pieces)
    (hl : Layout max name value pieces') : pieces.length ≤ pieces'.length := by
  obtain ⟨filled, hfill, hle⟩ := exists_fill_of_layout hl
  rw [h, Option.some.injEq] at hfill
  rw [hfill]
  exact hle

/-- A line of a layout, with the fold space before it and the semicolon behind it, is within the limit. -/
theorem Layout.length_line_le (h : Layout max name value pieces) {k : Nat} {piece : Text}
    (hk : pieces[k]? = some piece) : 1 + (header name k ++ Percent.encode piece).length + 1 ≤ max := by
  obtain ⟨h3, hw⟩ := h.room k piece hk
  have hh := length_header name k
  have he := headerWidth_eq name k
  rw [columns] at h3 hw
  rw [List.length_append]
  omega

end FoldedHeader.Continuation
