import FoldedHeader.Proofs.ContinuedParameter

/-!
# Writing continuation lines turn by turn

Continuation lines can be written as they are filled, with no more to remember than the number of lines opened, the
columns left on the open one and two flags (`Writer`). In a turn the writer opens the line that is due, if one is, and
looks at the next character: it writes the character, or finds that it fits nowhere, or makes a line due for it
(`Writer.turn`). `Writer.Run` says what turns are taken until the writer ends, and how it ends.

However it ends, it does so as filling does: it has written the lines that filling gives, or filling gives none
(`Run.result_eq`).
-/

namespace FoldedHeader.Continuation

open Filling

/-- The writing of a value on continuation lines, under way. -/
structure Writer where
  /-- The text written so far. -/
  out : Text
  /-- The number of lines opened so far, which is the number on the line opened next. -/
  opened : Nat
  /-- The columns left on the open line. -/
  room : Nat
  /-- Is a line to be opened before the next character is looked at? -/
  due : Bool
  /-- Is there nothing of the value on the open line? -/
  empty : Bool
  /-- The characters still to be written. -/
  rest : Text
  deriving DecidableEq

/-- What a turn leads to. -/
inductive Turn
  /-- Another turn. -/
  | goesOn (w : Writer)
  /-- The end, with all characters written or with an error. -/
  | ends (r : Except EncodeError Writer)

namespace Writer

/-- The writer behind the text `out`, with nothing of the value written and line 0 due. -/
def start (out value : Text) : Writer := ⟨out, 0, 0, true, true, value⟩

/-- The writer with the next line open, and so many columns left on it. -/
def onNextLine (name : Text) (room : Nat) (w : Writer) : Writer :=
  ⟨w.out ++ (fold ++ header name w.opened), w.opened + 1, room, false, true, w.rest⟩

/-- Open the next line. -/
def openLine (max : Nat) (name : Text) (w : Writer) : Except EncodeError Writer :=
  match room? max name w.opened with
  | none => .error (.nameTooLong name max)
  | some room => .ok (w.onNextLine name room)

/-- Look at the next character. An attribute character takes one column, any other three for each byte. -/
def writeNext (max : Nat) (name : Text) (w : Writer) : Turn :=
  match w.rest with
  | [] => .ends (.ok w)
  | c :: rest =>
    if c.utf8Size == 1 && isAttributeChar c && 1 ≤ w.room then
      .goesOn ⟨w.out ++ [c], w.opened, w.room - 1, w.due, false, rest⟩
    else if 3 * c.utf8Size ≤ w.room then
      .goesOn ⟨w.out ++ (String.utf8EncodeChar c).flatMap Percent.triplet, w.opened, w.room - 3 * c.utf8Size, w.due,
        false, rest⟩
    else if w.empty && 1 < w.opened then .ends (.error (.nameTooLong name max))
    else .goesOn { w with due := true }

/-- Open the line that is due, if one is, and look at the next character. -/
def turn (max : Nat) (name : Text) (w : Writer) : Turn :=
  if w.due then
    match w.openLine max name with
    | .ok v => v.writeNext max name
    | .error err => .ends (.error err)
  else w.writeNext max name

/-- The writer as it is when it looks at the next character: a line that was due is open. -/
def opening (max : Nat) (name : Text) (w : Writer) : Except EncodeError Writer :=
  if w.due then w.openLine max name else .ok w

/-- **The turns of a writer until it ends**: those who take one, in order, and the end. -/
inductive Run (max : Nat) (name : Text) : Writer → List Writer → Except EncodeError Writer → Prop
  | ends {w : Writer} {r : Except EncodeError Writer} : w.turn max name = .ends r → Run max name w [w] r
  | goesOn {w v : Writer} {ws : List Writer} {r : Except EncodeError Writer} :
      w.turn max name = .goesOn v → Run max name v ws r → Run max name w (w :: ws) r

variable {max : Nat} {name out : Text} {w v : Writer} {ws ws' : List Writer} {r r' : Except EncodeError Writer}

/-! ## What a turn can do -/

/-- A character that fits is written in its encoded form, and its columns are taken away from those left. -/
theorem writeNext_of_le {c : Char} {rest : Text} (h : w.rest = c :: rest) (hle : Percent.charWidth c ≤ w.room) :
    w.writeNext max name =
      .goesOn ⟨w.out ++ Percent.encodeChar c, w.opened, w.room - Percent.charWidth c, w.due, false, rest⟩ := by
  unfold Percent.charWidth at hle
  by_cases hc : isAttributeChar c = true
  · have hsize := utf8Size_of_ascii (toNat_lt_of_isAttributeChar hc)
    rw [if_pos hc] at hle
    simp [writeNext, h, Percent.charWidth, Percent.encodeChar, hc, hle, hsize]
  · rw [if_neg hc] at hle
    simp [writeNext, h, Percent.charWidth, Percent.encodeChar, hc, hle]

/-- A character that does not fit is given up on an empty line after the first, and else a line is due for it. -/
theorem writeNext_of_lt {c : Char} {rest : Text} (h : w.rest = c :: rest) (hlt : w.room < Percent.charWidth c) :
    w.writeNext max name =
      if w.empty && 1 < w.opened then .ends (.error (.nameTooLong name max)) else .goesOn { w with due := true } := by
  have hpos := c.utf8Size_pos
  unfold Percent.charWidth at hlt
  by_cases hc : isAttributeChar c = true
  · rw [if_pos hc] at hlt
    have h1 : ¬ 1 ≤ w.room := by omega
    have h3 : ¬ 3 * c.utf8Size ≤ w.room := by omega
    simp only [writeNext, h, h1, h3, decide_false, Bool.and_false, Bool.false_eq_true, if_false]
  · rw [if_neg hc] at hlt
    have h3 : ¬ 3 * c.utf8Size ≤ w.room := by omega
    simp only [writeNext, h, hc, h3, Bool.and_false, Bool.false_and, Bool.false_eq_true, if_false]

/-- **What a look at the next character leads to**: the end, the character written, the end with an error, or a line
due for the character. -/
theorem writeNext_cases (max : Nat) (name : Text) (w : Writer) :
    w.rest = [] ∧ w.writeNext max name = .ends (.ok w) ∨
    ∃ c rest, w.rest = c :: rest ∧
      (Percent.charWidth c ≤ w.room ∧ w.writeNext max name =
          .goesOn ⟨w.out ++ Percent.encodeChar c, w.opened, w.room - Percent.charWidth c, w.due, false, rest⟩ ∨
        w.room < Percent.charWidth c ∧ (w.empty && decide (1 < w.opened)) = true ∧
          w.writeNext max name = .ends (.error (.nameTooLong name max)) ∨
        w.room < Percent.charWidth c ∧ (w.empty && decide (1 < w.opened)) = false ∧
          w.writeNext max name = .goesOn { w with due := true }) := by
  cases hr : w.rest with
  | nil => exact Or.inl ⟨rfl, by simp only [writeNext, hr]⟩
  | cons c rest =>
    refine Or.inr ⟨c, rest, rfl, ?_⟩
    by_cases hle : Percent.charWidth c ≤ w.room
    · exact Or.inl ⟨hle, writeNext_of_le hr hle⟩
    · have hlt := Nat.lt_of_not_le hle
      rw [writeNext_of_lt hr hlt]
      cases w.empty && decide (1 < w.opened) with
      | true => exact Or.inr (Or.inl ⟨hlt, rfl, rfl⟩)
      | false => exact Or.inr (Or.inr ⟨hlt, rfl, by rw [← hr]; rfl⟩)

/-- **A look that goes on either writes the next character, or makes a line due for it**; the latter not on an empty
line behind the first. -/
theorem writeNext_eq_goesOn (h : w.writeNext max name = .goesOn v) :
    (∃ c rest, w.rest = c :: rest ∧ Percent.charWidth c ≤ w.room ∧
      v = ⟨w.out ++ Percent.encodeChar c, w.opened, w.room - Percent.charWidth c, w.due, false, rest⟩) ∨
    w.rest ≠ [] ∧ (w.empty && decide (1 < w.opened)) = false ∧ v = { w with due := true } := by
  rcases writeNext_cases max name w with ⟨_, he⟩ | ⟨c, rest, hr, ⟨hle, he⟩ | ⟨_, _, he⟩ | ⟨_, hf, he⟩⟩
  · rw [h] at he
    cases he
  · rw [h, Turn.goesOn.injEq] at he
    exact Or.inl ⟨c, rest, hr, hle, he⟩
  · rw [h] at he
    cases he
  · rw [h, Turn.goesOn.injEq] at he
    exact Or.inr ⟨hr ▸ nofun, hf, he⟩

/-- **What comes before the look at the next character**: nothing, or the line that is due is opened, or cannot be. -/
theorem turn_cases (max : Nat) (name : Text) (w : Writer) :
    w.due = false ∧ w.turn max name = w.writeNext max name ∨
    w.due = true ∧
      (room? max name w.opened = none ∧ w.turn max name = .ends (.error (.nameTooLong name max)) ∨
        ∃ room, room? max name w.opened = some room ∧
          w.turn max name = (w.onNextLine name room).writeNext max name) := by
  cases hd : w.due with
  | false => exact Or.inl ⟨rfl, by simp only [turn, hd, Bool.false_eq_true, if_false]⟩
  | true =>
    refine Or.inr ⟨rfl, ?_⟩
    simp only [turn, hd, if_true, openLine]
    cases room? max name w.opened with
    | none => exact Or.inl ⟨rfl, rfl⟩
    | some room => exact Or.inr ⟨room, rfl, rfl⟩

/-- A turn is a look at the next character, once no line is due. -/
theorem turn_of_opening (h : w.opening max name = .ok v) : w.turn max name = v.writeNext max name := by
  unfold opening at h
  unfold turn
  split at h
  next hd => rw [if_pos hd, h]
  next hd =>
    rw [Except.ok.injEq] at h
    rw [if_neg hd, h]

theorem turn_of_opening_error {err : EncodeError} (h : w.opening max name = .error err) :
    w.turn max name = .ends (.error err) := by
  unfold opening at h
  unfold turn
  split at h
  next hd => rw [if_pos hd, h]
  · cases h

/-- There is one run from a writer at most. -/
theorem Run.unique (h : Run max name w ws r) (h' : Run max name w ws' r') : ws' = ws ∧ r' = r := by
  induction h generalizing ws' with
  | ends ht =>
    cases h' with
    | ends ht' =>
      rw [ht, Turn.ends.injEq] at ht'
      exact ⟨rfl, ht'.symm⟩
    | goesOn ht' _ => rw [ht] at ht'; cases ht'
  | goesOn ht _ ih =>
    cases h' with
    | ends ht' => rw [ht] at ht'; cases ht'
    | goesOn ht' h' =>
      rw [ht, Turn.goesOn.injEq] at ht'
      obtain ⟨rfl, rfl⟩ := ih (ht' ▸ h')
      exact ⟨rfl, rfl⟩

/-! ## As filling does -/

/-- What the writer makes of the lines that filling gives, or of none: the text behind `out`, and the number of lines. -/
def outcome (max : Nat) (name out : Text) : Option (List Text) → Except EncodeError (Text × Nat)
  | some pieces => .ok (out ++ (Form.continued pieces).render name, pieces.length)
  | none => .error (.nameTooLong name max)

/-- The text and the number of lines with which the writer ends. -/
def result (r : Except EncodeError Writer) : Except EncodeError (Text × Nat) := r.map fun w => (w.out, w.opened)

/-- The writer has written what the filling has placed. Either it stands where the filling does, or it has found that
the next character does not fit on the open line, and that another line may be opened for it. -/
structure Tracks (name out : Text) (w : Writer) (s : State Char) : Prop where
  out_eq : w.out = out ++ (Form.continued s.lines).render name
  opened_eq : w.opened = s.lines.length
  rest_eq : w.rest = s.rest
  stands : w.due = false ∧ w.room = s.room ∧ w.empty = s.line.isEmpty ∨
    w.due = true ∧ s.fresh = false ∧ ∃ c rest, s.rest = c :: rest ∧ s.room < Percent.charWidth c

theorem render_continued_concat (name : Text) (pieces : List Text) (piece : Text) :
    (Form.continued (pieces ++ [piece])).render name =
      (Form.continued pieces).render name ++ (fold ++ (header name pieces.length ++ Percent.encode piece)) := by
  simp only [Form.render_continued, List.mapIdx_concat, List.flatten_concat]

/-- What a turn from the writer leads to is what the filling leads to: the outcome, or a writer further on. -/
def Follows (max : Nat) (name out : Text) (s : State Char) (t : Turn) : Prop :=
  (∃ r, t = .ends r ∧ result r = outcome max name out ((rule max name).run s)) ∨
  ∃ v u, t = .goesOn v ∧ Tracks name out v u ∧ (rule max name).run s = (rule max name).run u

/-- A look at the next character from where the filling stands. -/
theorem follows_writeNext {s : State Char} (h : Tracks name out w s) (hroom : w.room = s.room)
    (hempty : w.empty = s.line.isEmpty) (hdue : w.due = false) :
    Follows max name out s (w.writeNext max name) := by
  have hfresh : (w.empty && decide (1 < w.opened)) = s.fresh := by
    rw [hempty, h.opened_eq, State.fresh, State.lines]
    cases s.closed <;> simp
  rcases writeNext_cases max name w with ⟨hr, he⟩ | ⟨c, rest, hr, hw⟩
  · rw [h.rest_eq] at hr
    refine Or.inl ⟨_, he, ?_⟩
    rw [Rule.run_of_rest_eq_nil hr, outcome, ← h.out_eq, ← h.opened_eq]
    rfl
  · rw [h.rest_eq] at hr
    rw [hroom, hfresh] at hw
    rcases hw with ⟨hle, he⟩ | ⟨hlt, hf, he⟩ | ⟨hlt, hf, he⟩
    · have hstep : (rule max name).step s = .next _ := Rule.step_of_le hr hle
      refine Or.inr ⟨_, _, he, ?_, Rule.run_of_next hstep⟩
      refine ⟨?_, ?_, rfl, Or.inl ⟨hdue, rfl, by simp⟩⟩
      · rw [h.out_eq, State.lines, State.lines, render_continued_concat, render_continued_concat, Percent.encode_append]
        simp
      · rw [h.opened_eq]
        simp [State.lines]
    · refine Or.inl ⟨_, he, ?_⟩
      rw [Rule.run_of_stuck (Rule.step_of_fresh hr hlt hf)]
      rfl
    · exact Or.inr ⟨_, s, he, ⟨h.out_eq, h.opened_eq, h.rest_eq, Or.inr ⟨rfl, hf, c, rest, hr, hlt⟩⟩, rfl⟩

/-- A turn follows the filling that the writer tracks; the line that is due is opened in a step of its own. -/
theorem follows_turn {s : State Char} (h : Tracks name out w s) : Follows max name out s (w.turn max name) := by
  rcases turn_cases max name w with ⟨hd, he⟩ | ⟨hd, he⟩
  · rcases h.stands with ⟨_, hroom, hempty⟩ | ⟨hdue, _⟩
    · rw [he]
      exact follows_writeNext h hroom hempty hd
    · rw [hd] at hdue
      cases hdue
  · rcases h.stands with ⟨hdue, _⟩ | ⟨_, hf, c, rest, hr, hlt⟩
    · rw [hd] at hdue
      cases hdue
    · have hlen : s.lines.length = s.closed.length + 1 := by simp [State.lines]
      have hstep := Rule.step_of_lt (r := rule max name) hr hlt hf
      rw [h.opened_eq, hlen] at he
      rcases he with ⟨hroom, he⟩ | ⟨room, hroom, he⟩
      · rw [show (rule max name).room (s.closed.length + 1) = none from hroom] at hstep
        exact Or.inl ⟨_, he, by rw [Rule.run_of_stuck hstep]; rfl⟩
      · rw [show (rule max name).room (s.closed.length + 1) = some room from hroom] at hstep
        rw [he, Follows, Rule.run_of_next hstep]
        refine follows_writeNext ⟨?_, ?_, h.rest_eq, Or.inl ⟨rfl, rfl, rfl⟩⟩ rfl rfl rfl
        · show w.out ++ (fold ++ header name w.opened) = out ++ (Form.continued (s.lines ++ [[]])).render name
          rw [h.out_eq, h.opened_eq, render_continued_concat]
          simp
        · show w.opened + 1 = (s.lines ++ [[]]).length
          rw [h.opened_eq, List.length_append, List.length_singleton]

/-- A run whose first turn follows a filling ends as the filling does. -/
theorem Run.result_of_follows (h : Run max name w ws r) {s : State Char}
    (hs : Follows max name out s (w.turn max name)) : result r = outcome max name out ((rule max name).run s) := by
  induction h generalizing s with
  | ends ht =>
    rw [ht] at hs
    rcases hs with ⟨r', hr, hres⟩ | ⟨v, u, hv, _⟩
    · rw [Turn.ends.inj hr, hres]
    · cases hv
  | goesOn ht _ ih =>
    rw [ht] at hs
    rcases hs with ⟨r', hr, _⟩ | ⟨v, u, hv, hu, hrun⟩
    · cases hr
    · rw [hrun]
      exact ih (follows_turn (Turn.goesOn.inj hv ▸ hu))

/-- **The writer ends as filling does.** -/
theorem Run.result_eq {value : Text} (h : Run max name (start out value) ws r) :
    result r = outcome max name out ((rule max name).fill value) := by
  rcases turn_cases max name (start out value) with ⟨hd, _⟩ | ⟨_, ⟨hroom, he⟩ | ⟨room, hroom, he⟩⟩
  · cases hd
  · have hroom : room? max name 0 = none := hroom
    have hfill : (rule max name).fill value = none := by simp [Rule.fill, Rule.start, rule, hroom]
    cases h with
    | ends ht =>
      rw [he, Turn.ends.injEq] at ht
      rw [hfill, ← ht]
      rfl
    | goesOn ht _ =>
      rw [he] at ht
      cases ht
  · have hroom : room? max name 0 = some room := hroom
    have hfill : (rule max name).fill value = (rule max name).run ⟨[], [], room, value⟩ := by
      simp [Rule.fill, Rule.start, rule, hroom]
    rw [hfill]
    refine h.result_of_follows ?_
    rw [he]
    refine follows_writeNext ⟨?_, rfl, rfl, Or.inl ⟨rfl, rfl, rfl⟩⟩ rfl rfl rfl
    simp [start, onNextLine, State.lines, Form.render_continued]

end Writer

end FoldedHeader.Continuation
