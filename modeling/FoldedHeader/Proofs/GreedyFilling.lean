import FoldedHeader.Filling

/-!
# Greedy filling against all divisions

What filling gives is compared with every admissible division of the same items.

* Its lines are greedy (`greedy_fill`): none has room for the item that stands next behind it, and only the first may
  be empty.
* If no line behind the first is wider than one before it (`Rule.Narrowing`), a filling under way never has more left
  than a division has from the same line on (`State.Ahead`, kept by `ahead_step`). So an item that is stuck would fit
  in no division (`not_stuck_of_ahead`), and filling gets through whenever there is a division, with no more lines
  than it has (`exists_fill_of_layout`).
-/

namespace FoldedHeader.Filling

variable {α : Type} {r : Rule α} {items : List α} {lines : List (List α)} {s t : State α}

/-! ## Greedy lines -/

/-- No line has room for the item that stands next behind it. -/
def Rule.Tight (r : Rule α) (lines : List (List α)) : Prop :=
  ∀ k line a rest room, lines[k]? = some line → (lines.drop (k + 1)).flatten = a :: rest → r.room k = some room →
    room < r.lineWidth line + r.width a

/-- Lines as greedy filling leaves them: none could take more, and only the first may be empty. -/
structure Rule.Greedy (r : Rule α) (lines : List (List α)) : Prop where
  tight : r.Tight lines
  ne_nil : ∀ line ∈ lines.tail, line ≠ []

/-- The lines that there were if all items left went onto the open line. -/
def State.draft (s : State α) : List (List α) := s.closed ++ [s.line ++ s.rest]

namespace Rule

theorem tight_singleton (r : Rule α) (line : List α) : r.Tight [line] := by
  intro k l a rest room _ hd _
  simp at hd

/-- A last line may be broken before an item for which there is no room on it. -/
theorem Tight.break_last {closed : List (List α)} {line : List α} {a : α} {rest : List α} {room : Nat}
    (h : r.Tight (closed ++ [line ++ a :: rest])) (hr : r.room closed.length = some room)
    (hw : room < r.lineWidth line + r.width a) : r.Tight (closed ++ [line] ++ [a :: rest]) := by
  intro k l b rest' room' hk hd hroom
  rcases Nat.lt_trichotomy k closed.length with hlt | rfl | hgt
  · refine h k l b rest' room' ?_ ?_ hroom
    · rw [List.append_assoc, List.getElem?_append_left hlt] at hk
      rwa [List.getElem?_append_left hlt]
    · rw [List.append_assoc, List.drop_append_of_le_length hlt] at hd
      rw [List.drop_append_of_le_length hlt, ← hd]
      simp
  · simp only [List.append_assoc, List.getElem?_append_right (Nat.le_refl _), Nat.sub_self, List.cons_append,
      List.getElem?_cons_zero, Option.some.injEq] at hk
    simp only [List.append_assoc, List.drop_append, Nat.add_sub_cancel_left, List.cons_append, List.nil_append,
      List.drop_succ_cons, List.drop_zero, List.drop_eq_nil_of_le (Nat.le_succ _), List.flatten_cons, List.flatten_nil,
      List.append_nil, List.cons.injEq] at hd
    rw [hr, Option.some.injEq] at hroom
    rw [← hk, ← hd.1, ← hroom]
    exact hw
  · rw [List.drop_eq_nil_of_le (by simp; omega)] at hd
    simp at hd

theorem greedy_start (h : r.start items = some s) : r.Greedy s.draft := by
  obtain ⟨room, _, rfl⟩ := Option.map_eq_some_iff.mp h
  exact ⟨r.tight_singleton _, by simp [State.draft]⟩

/-- A step keeps a filling greedy. -/
theorem greedy_step (hs : s.Sound r items) (hg : r.Greedy s.draft) (h : r.step s = .next t) : r.Greedy t.draft := by
  rcases step_eq_next h with ⟨a, rest, hr, _, rfl⟩ | ⟨a, rest, room, hr, hlt, hf, _, rfl⟩
  · simpa [State.draft, hr] using hg
  · obtain ⟨htight, hne⟩ := hg
    rw [State.draft, hr] at htight hne
    refine ⟨htight.break_last hs.room (Nat.add_lt_add_left hlt _), fun line hl => ?_⟩
    -- the line that is closed is empty only if it is the first
    cases hc : s.closed with
    | nil =>
      simp only [State.draft, State.lines, hc, List.nil_append, List.cons_append, List.tail_cons,
        List.mem_singleton] at hl
      simp [hl]
    | cons l₀ closed =>
      have hline : s.line ≠ [] := by simpa [State.fresh, hc] using hf
      simp only [State.draft, State.lines, hc, List.nil_append, List.cons_append, List.tail_cons, List.mem_append,
        List.mem_singleton, or_assoc] at hl
      rcases hl with hl | rfl | rfl
      · exact hne line (by simp [hc, hl])
      · exact hline
      · simp

/-- A run from a sound and greedy state ends, if at all, in greedy lines. -/
theorem greedy_run (hs : s.Sound r items) (hg : r.Greedy s.draft) (h : r.run s = some lines) : r.Greedy lines := by
  fun_induction run r s with
  | case1 s t ht ih => exact ih (sound_step hs ht) (greedy_step hs hg ht) h
  | case2 s hd =>
    cases h
    simpa [State.draft, State.lines, step_eq_done_iff.mp hd] using hg
  | case3 => cases h

/-- **Filling gives greedy lines.** -/
theorem greedy_fill (h : r.fill items = some lines) : r.Greedy lines := by
  obtain ⟨s, hs, hr⟩ := Option.bind_eq_some_iff.mp h
  exact greedy_run (sound_start hs) (greedy_start hs) hr

/-! ## Staying ahead of a division -/

/-- Behind the first line, a line that can be opened is no wider than any before it. -/
def Narrowing (r : Rule α) : Prop :=
  ∀ j k room, 1 ≤ j → j ≤ k → r.room k = some room → ∃ room', r.room j = some room' ∧ room ≤ room'

end Rule

/-- The division has a line where the filling has its open one, and from there on all that the filling has left. -/
structure State.Ahead (lines : List (List α)) (s : State α) : Prop where
  lt : s.closed.length < lines.length
  suffix : s.line ++ s.rest <:+ (lines.drop s.closed.length).flatten

namespace Rule

theorem width_le_lineWidth {a : α} : ∀ {line : List α}, a ∈ line → r.width a ≤ r.lineWidth line
  | b :: line, h => by
    rcases List.mem_cons.mp h with rfl | h
    · exact Nat.le_add_right _ _
    · exact Nat.le_trans (width_le_lineWidth h) (Nat.le_add_left _ _)

/-- An item that a division places on line `k` or behind it fits on some line there. -/
theorem Fits.exists_room (hl : r.Fits lines) {k : Nat} {a : α} (ha : a ∈ (lines.drop k).flatten) :
    ∃ j room, k ≤ j ∧ r.room j = some room ∧ r.width a ≤ room := by
  obtain ⟨line, hline, ha⟩ := List.mem_flatten.mp ha
  obtain ⟨i, hi⟩ := List.mem_iff_getElem?.mp hline
  rw [List.getElem?_drop] at hi
  obtain ⟨room, hr, hw⟩ := hl _ _ hi
  exact ⟨k + i, room, Nat.le_add_right _ _, hr, Nat.le_trans (width_le_lineWidth ha) hw⟩

theorem ahead_start (h : r.start items = some s) (hl : r.Layout items lines) : s.Ahead lines := by
  obtain ⟨room, _, rfl⟩ := Option.map_eq_some_iff.mp h
  refine ⟨List.length_pos_iff.mpr hl.ne_nil, ?_⟩
  simp [hl.flatten_eq]

/-- If the next item does not fit on the open line, the division has not placed it there or before either. -/
theorem suffix_of_lt (hs : s.Sound r items) (hl : r.Fits lines) (ha : s.Ahead lines) {a : α} {rest : List α}
    (hr : s.rest = a :: rest) (hlt : s.room < r.width a) :
    a :: rest <:+ (lines.drop (s.closed.length + 1)).flatten := by
  obtain ⟨hk, before, hb⟩ := ha
  have hw := hl _ _ (List.getElem?_eq_getElem hk)
  rw [List.drop_eq_getElem_cons hk, List.flatten_cons, hr, ← List.append_assoc] at hb
  rcases List.append_eq_append_iff.mp hb with ⟨past, hpast, hrest⟩ | ⟨past, hpast, hrest⟩
  · -- the division's line ends past the place before `a`
    cases past with
    | nil => exact ⟨[], by simpa using hrest⟩
    | cons b past =>
      obtain ⟨room, hroom, hw⟩ := hw
      have hab : a = b := by simpa using congrArg List.head? hrest
      rw [hs.room, Option.some.injEq] at hroom
      rw [hpast, List.append_assoc] at hw
      simp only [lineWidth_append, lineWidth, ← hab] at hw
      omega
  · exact ⟨past, hrest.symm⟩

/-- A step keeps a filling ahead of a division. -/
theorem ahead_step (hs : s.Sound r items) (hl : r.Fits lines) (ha : s.Ahead lines) (h : r.step s = .next t) :
    t.Ahead lines := by
  rcases step_eq_next h with ⟨a, rest, hr, _, rfl⟩ | ⟨a, rest, room, hr, hlt, _, _, rfl⟩
  · exact ⟨ha.lt, by simpa [hr] using ha.suffix⟩
  · have hsuf := suffix_of_lt hs hl ha hr hlt
    have hlen : s.lines.length = s.closed.length + 1 := by simp [State.lines]
    refine ⟨?_, by simpa [hlen] using hsuf⟩
    rw [hlen]
    refine Nat.lt_of_not_le fun hle => ?_
    rw [List.drop_eq_nil_of_le hle] at hsuf
    simpa using hsuf.length_le

/-- If lines narrow, no item is stuck while the filling is ahead of a division. -/
theorem not_stuck_of_ahead (hn : r.Narrowing) (hs : s.Sound r items) (hl : r.Fits lines) (ha : s.Ahead lines) :
    r.step s ≠ .stuck := by
  intro h
  obtain ⟨a, rest, hr, hlt, hf⟩ := step_eq_stuck h
  have hmem : a ∈ (lines.drop (s.closed.length + 1)).flatten :=
    (suffix_of_lt hs hl ha hr hlt).subset List.mem_cons_self
  obtain ⟨j, room, hj, hroom, hw⟩ := hl.exists_room hmem
  rcases hf with hf | hnone
  · -- an empty line behind the first is at least as wide as the one on which the division has the item
    have hf : s.line = [] ∧ s.closed ≠ [] := by simpa [State.fresh] using hf
    have hpos := List.length_pos_iff.mpr hf.2
    obtain ⟨room', hroom', hle⟩ := hn _ j room hpos (by omega) hroom
    rw [hs.room, Option.some.injEq, hf.1] at hroom'
    simp only [lineWidth] at hroom'
    omega
  · obtain ⟨room', hroom', _⟩ := hn (s.closed.length + 1) j room (by omega) hj hroom
    rw [hnone] at hroom'
    cases hroom'

/-- A run that is ahead of a division gets through, with no more lines than it has. -/
theorem exists_run_of_ahead (hn : r.Narrowing) (hl : r.Fits lines) (hs : s.Sound r items) (ha : s.Ahead lines) :
    ∃ filled, r.run s = some filled ∧ filled.length ≤ lines.length := by
  fun_induction run r s with
  | case1 s t ht ih => exact ih (sound_step hs ht) (ahead_step hs hl ha ht)
  | case2 s _ => exact ⟨s.lines, rfl, by rw [State.lines, List.length_append]; exact ha.lt⟩
  | case3 s hstuck => exact absurd hstuck (not_stuck_of_ahead hn hs hl ha)

/-- **If lines narrow, filling is complete and optimal**: where there is an admissible division, filling gets through
with no more lines. -/
theorem exists_fill_of_layout (hn : r.Narrowing) (hl : r.Layout items lines) :
    ∃ filled, r.fill items = some filled ∧ filled.length ≤ lines.length := by
  obtain ⟨room, hroom, _⟩ := hl.fits 0 _ (List.getElem?_eq_getElem (List.length_pos_iff.mpr hl.ne_nil))
  have hs : r.start items = some ⟨[], [], room, items⟩ := by simp [start, hroom]
  obtain ⟨filled, hr, hle⟩ := exists_run_of_ahead hn hl.fits (sound_start hs) (ahead_start hs hl)
  exact ⟨filled, by rw [fill, hs, Option.bind_some, hr], hle⟩

end Rule

end FoldedHeader.Filling
