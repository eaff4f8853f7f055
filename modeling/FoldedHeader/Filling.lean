/-!
# Filling lines with items

A sequence of items is to be divided into lines, in order. A `Rule` gives the columns that each item takes and the
columns that each line has for items; a line may also be one that cannot be opened at all. Lines are filled greedily:
an item goes onto the open line if it fits there, and else onto a new one (`Rule.step`, `Rule.run`). The first line
may stay empty, since later lines can be wider; an item that does not fit on an empty later line ends the filling
without a result.

`Rule.Layout` says what an admissible division is, however it was found. `Rule.fill` finds one (`Rule.layout_fill`).
-/

namespace FoldedHeader.Filling

/-- The columns of lines and of items. -/
structure Rule (α : Type) where
  /-- The columns that line `k` has for items, if it can be opened. -/
  room : (k : Nat) → Option Nat
  /-- The columns that an item takes. -/
  width : α → Nat

/-- A filling under way. -/
structure State (α : Type) where
  /-- The lines that are finished. -/
  closed : List (List α)
  /-- The items on the open line. -/
  line : List α
  /-- The columns left on the open line. -/
  room : Nat
  /-- The items still to be placed. -/
  rest : List α

/-- What one look at the next item leads to. -/
inductive Step (α : Type)
  /-- The filling goes on: the item was placed, or a new line was opened for it. -/
  | next (s : State α)
  /-- There is no item left. -/
  | done
  /-- The item fits nowhere. -/
  | stuck

variable {α : Type}

namespace State

/-- Is the open line an empty one after the first? -/
def fresh (s : State α) : Bool := s.line.isEmpty && !s.closed.isEmpty

/-- The lines so far, the open one included. -/
def lines (s : State α) : List (List α) := s.closed ++ [s.line]

/-- A bound on the steps still to come: an item takes at most one to open a line for it and one to place it. -/
def pending (s : State α) : Nat := 2 * s.rest.length + if s.fresh then 0 else 1

end State

namespace Rule

/-- The columns that a line of items takes. -/
def lineWidth (r : Rule α) : (line : List α) → Nat
  | [] => 0
  | a :: line => r.width a + r.lineWidth line

/-- The state with no item placed and line 0 open, if it can be opened. -/
def start (r : Rule α) (items : List α) : Option (State α) := (r.room 0).map fun room => ⟨[], [], room, items⟩

/-- Look at the next item. -/
def step (r : Rule α) (s : State α) : Step α :=
  match s.rest with
  | [] => .done
  | a :: rest =>
    if r.width a ≤ s.room then .next ⟨s.closed, s.line ++ [a], s.room - r.width a, rest⟩
    else if s.fresh then .stuck
    else
      match r.room (s.closed.length + 1) with
      | none => .stuck
      | some room => .next ⟨s.lines, [], room, a :: rest⟩

/-- An item that fits on the open line is placed there. -/
theorem step_of_le {r : Rule α} {s : State α} {a : α} {rest : List α} (hr : s.rest = a :: rest)
    (hle : r.width a ≤ s.room) : r.step s = .next ⟨s.closed, s.line ++ [a], s.room - r.width a, rest⟩ := by
  simp only [step, hr, if_pos hle]

/-- An item that does not fit on an empty line after the first is stuck. -/
theorem step_of_fresh {r : Rule α} {s : State α} {a : α} {rest : List α} (hr : s.rest = a :: rest)
    (hlt : s.room < r.width a) (hf : s.fresh = true) : r.step s = .stuck := by
  simp only [step, hr, if_neg (Nat.not_le_of_lt hlt), if_pos hf]

/-- For an item that does not fit on any other line, the next line is opened. -/
theorem step_of_lt {r : Rule α} {s : State α} {a : α} {rest : List α} (hr : s.rest = a :: rest)
    (hlt : s.room < r.width a) (hf : s.fresh = false) :
    r.step s = match r.room (s.closed.length + 1) with
      | none => .stuck
      | some room => .next ⟨s.lines, [], room, s.rest⟩ := by
  simp only [step, hr, if_neg (Nat.not_le_of_lt hlt), hf, Bool.false_eq_true, if_false]

/-- A step that goes on either places the next item on the open line, or opens a new line for it. -/
theorem step_eq_next {r : Rule α} {s t : State α} (h : r.step s = .next t) :
    (∃ a rest, s.rest = a :: rest ∧ r.width a ≤ s.room ∧
      t = ⟨s.closed, s.line ++ [a], s.room - r.width a, rest⟩) ∨
    (∃ a rest room, s.rest = a :: rest ∧ s.room < r.width a ∧ s.fresh = false ∧
      r.room (s.closed.length + 1) = some room ∧ t = ⟨s.lines, [], room, a :: rest⟩) := by
  unfold step at h
  split at h
  · cases h
  next a rest hr =>
    split at h
    next hle =>
      cases h
      exact Or.inl ⟨a, rest, hr, hle, rfl⟩
    next hlt =>
      split at h
      · cases h
      next hf =>
        split at h
        · cases h
        next room hroom =>
          cases h
          exact Or.inr ⟨a, rest, room, hr, Nat.lt_of_not_le hlt, Bool.eq_false_iff.mpr hf, hroom, rfl⟩

/-- An item is stuck when it does not fit on the open line, and this is empty already or no other can be opened. -/
theorem step_eq_stuck {r : Rule α} {s : State α} (h : r.step s = .stuck) :
    ∃ a rest, s.rest = a :: rest ∧ s.room < r.width a ∧
      (s.fresh = true ∨ r.room (s.closed.length + 1) = none) := by
  unfold step at h
  split at h
  · cases h
  next a rest hr =>
    split at h
    · cases h
    next hlt =>
      refine ⟨a, rest, hr, Nat.lt_of_not_le hlt, ?_⟩
      split at h
      next hf => exact Or.inl hf
      · split at h
        next hroom => exact Or.inr hroom
        · cases h

theorem pending_lt {r : Rule α} {s t : State α} (h : r.step s = .next t) : t.pending < s.pending := by
  rcases step_eq_next h with ⟨a, rest, hr, _, rfl⟩ | ⟨a, rest, room, hr, _, hf, _, rfl⟩
  · simp only [State.pending, hr, List.length_cons]
    split <;> split <;> omega
  · have ht : (⟨s.lines, [], room, a :: rest⟩ : State α).fresh = true := by simp [State.fresh, State.lines]
    simp [State.pending, hr, hf, ht]

theorem step_eq_done_iff {r : Rule α} {s : State α} : r.step s = .done ↔ s.rest = [] := by
  unfold step
  grind

/-- Place all the items that are left. -/
def run (r : Rule α) (s : State α) : Option (List (List α)) :=
  match _h : r.step s with
  | .next t => r.run t
  | .done => some s.lines
  | .stuck => none
termination_by s.pending
decreasing_by exact pending_lt _h

theorem run_of_next {r : Rule α} {s t : State α} (h : r.step s = .next t) : r.run s = r.run t := by
  rw [run]
  split
  next t' ht =>
    rw [h, Step.next.injEq] at ht
    rw [ht]
  next hd => rw [h] at hd; cases hd
  next hs => rw [h] at hs; cases hs

theorem run_of_rest_eq_nil {r : Rule α} {s : State α} (h : s.rest = []) : r.run s = some s.lines := by
  have hd := step_eq_done_iff (r := r).mpr h
  rw [run]
  split
  next t ht => rw [hd] at ht; cases ht
  · rfl
  next hs => rw [hd] at hs; cases hs

theorem run_of_stuck {r : Rule α} {s : State α} (h : r.step s = .stuck) : r.run s = none := by
  rw [run]
  split
  next t ht => rw [h] at ht; cases ht
  next hd => rw [h] at hd; cases hd
  · rfl

/-- Divide the items into lines, each filled as far as it goes. -/
def fill (r : Rule α) (items : List α) : Option (List (List α)) := (r.start items).bind r.run

/-! ## Admissible divisions -/

/-- Each line can be opened and has room for its items. -/
def Fits (r : Rule α) (lines : List (List α)) : Prop :=
  ∀ k line, lines[k]? = some line → ∃ room, r.room k = some room ∧ r.lineWidth line ≤ room

/-- An admissible division of the items: one line at least, all items in order, and each line within its room. -/
structure Layout (r : Rule α) (items : List α) (lines : List (List α)) : Prop where
  ne_nil : lines ≠ []
  flatten_eq : lines.flatten = items
  fits : r.Fits lines

end Rule

/-! ## What filling keeps -/

/-- The lines so far and the items left are all the items; the finished lines fit; the columns used and the columns
left on the open line are those it was opened with. -/
structure State.Sound (r : Rule α) (items : List α) (s : State α) : Prop where
  split : s.lines.flatten ++ s.rest = items
  fits : r.Fits s.closed
  room : r.room s.closed.length = some (r.lineWidth s.line + s.room)

namespace Rule

theorem lineWidth_append (r : Rule α) : ∀ l₁ l₂ : List α, r.lineWidth (l₁ ++ l₂) = r.lineWidth l₁ + r.lineWidth l₂
  | [], _ => by simp [lineWidth]
  | a :: l₁, l₂ => by simp [lineWidth, lineWidth_append r l₁ l₂, Nat.add_assoc]

theorem fits_nil (r : Rule α) : r.Fits [] := by simp [Fits]

/-- Lines that fit and one more that fits. -/
theorem Fits.concat {r : Rule α} {lines : List (List α)} (h : r.Fits lines) {line : List α} {room : Nat}
    (hr : r.room lines.length = some room) (hw : r.lineWidth line ≤ room) : r.Fits (lines ++ [line]) := by
  intro k l hk
  by_cases hlt : k < lines.length
  · exact h k l (by rwa [List.getElem?_append_left hlt] at hk)
  · have hk' : k = lines.length := by
      have := (List.getElem?_eq_some_iff.mp hk).1
      simp only [List.length_append, List.length_singleton] at this
      omega
    subst hk'
    rw [List.getElem?_concat_length, Option.some.injEq] at hk
    exact ⟨room, hr, hk ▸ hw⟩

theorem sound_start {r : Rule α} {items : List α} {s : State α} (h : r.start items = some s) : s.Sound r items := by
  obtain ⟨room, hr, rfl⟩ := Option.map_eq_some_iff.mp h
  exact ⟨rfl, r.fits_nil, by simpa [lineWidth] using hr⟩

/-- A step keeps a filling sound. -/
theorem sound_step {r : Rule α} {items : List α} {s t : State α} (hs : s.Sound r items) (h : r.step s = .next t) :
    t.Sound r items := by
  obtain ⟨hsplit, hfits, hroom⟩ := hs
  rcases step_eq_next h with ⟨a, rest, hr, hle, rfl⟩ | ⟨a, rest, room, hr, _, _, hnext, rfl⟩
  · rw [hr] at hsplit
    refine ⟨by simpa [State.lines] using hsplit, hfits, ?_⟩
    rw [hroom, lineWidth_append]
    simp [lineWidth]
    omega
  · rw [hr] at hsplit
    refine ⟨by simpa [State.lines] using hsplit, hfits.concat hroom (Nat.le_add_right _ _), ?_⟩
    simpa [State.lines, lineWidth] using hnext

/-- **A run from a sound state ends, if at all, in an admissible division.** -/
theorem layout_run {r : Rule α} {items : List α} {s : State α} (hs : s.Sound r items) {lines : List (List α)}
    (h : r.run s = some lines) : r.Layout items lines := by
  fun_induction run r s with
  | case1 s t ht ih => exact ih (sound_step hs ht) h
  | case2 s hd =>
    cases h
    obtain ⟨hsplit, hfits, hroom⟩ := hs
    refine ⟨by simp [State.lines], ?_, hfits.concat hroom (Nat.le_add_right _ _)⟩
    simpa [step_eq_done_iff.mp hd] using hsplit
  | case3 => cases h

/-- **Filling gives an admissible division.** -/
theorem layout_fill {r : Rule α} {items : List α} {lines : List (List α)} (h : r.fill items = some lines) :
    r.Layout items lines := by
  obtain ⟨s, hs, hr⟩ := Option.bind_eq_some_iff.mp h
  exact layout_run (sound_start hs) hr

end Rule

end FoldedHeader.Filling
