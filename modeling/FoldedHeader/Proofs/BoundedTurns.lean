import FoldedHeader.Proofs.LineWriter

/-!
# How many turns a writer takes

A turn that goes on writes the next character, or makes a line due for it (`turn_eq_goesOn`), and behind the first line
the latter never happens twice for one character: a character that does not fit on an empty line there is given up. So a
writer ends (`exists_run`): each turn lowers a bound on the turns to come (`pending_lt`), which is two for each character
and two more. It opens one line for each character at most, and the first (`Run.countP_due_le`).
-/

namespace FoldedHeader.Continuation.Writer

variable {max : Nat} {name : Text} {w v : Writer} {ws : List Writer} {r : Except EncodeError Writer}

/-- Is the next character about to be tried again, on a fresh line behind the first? -/
def retries (w : Writer) : Bool := w.due && 0 < w.opened

/-- A bound on the turns to come. -/
def pending (w : Writer) : Nat := 2 * w.rest.length + if w.retries then 1 else 2

/-- A bound on the lines to be opened. -/
def linesLeft (w : Writer) : Nat := w.rest.length + if w.due && w.opened == 0 then 1 else 0

/-- What holds between turns: a line is open or due, and behind the first a line is due for a character only. -/
structure Valid (w : Writer) : Prop where
  opened_pos : w.due = false → 0 < w.opened
  rest_ne_nil : w.retries = true → w.rest ≠ []

/-! ## One turn -/

theorem writeNext_eq_ends_ok (h : w.writeNext max name = .ends (.ok v)) : v = w := by
  rcases writeNext_cases max name w with ⟨_, he⟩ | ⟨c, rest, _, ⟨_, he⟩ | ⟨_, _, he⟩ | ⟨_, _, he⟩⟩
  · rw [h, Turn.ends.injEq, Except.ok.injEq] at he
    exact he
  · rw [h] at he
    cases he
  · rw [h] at he
    cases he
  · rw [h] at he
    cases he

/-- **A turn that goes on either writes the next character, or makes a line due for it**, but not again if it was tried
on a fresh line behind the first. A line that was due is opened either way. -/
theorem turn_eq_goesOn (h : w.turn max name = .goesOn v) :
    v.opened = (if w.due then w.opened + 1 else w.opened) ∧
    ((∃ c, w.rest = c :: v.rest) ∧ v.due = false ∨
      w.rest ≠ [] ∧ v.rest = w.rest ∧ v.due = true ∧ w.retries = false) := by
  rcases turn_cases max name w with ⟨hd, he⟩ | ⟨hd, ⟨_, he⟩ | ⟨room, _, he⟩⟩
  · rw [h] at he
    rw [hd]
    rcases writeNext_eq_goesOn he.symm with ⟨c, rest, hr, _, rfl⟩ | ⟨hne, _, rfl⟩
    · exact ⟨rfl, Or.inl ⟨⟨c, hr⟩, hd⟩⟩
    · exact ⟨rfl, Or.inr ⟨hne, rfl, rfl, by rw [retries, hd, Bool.false_and]⟩⟩
  · rw [h] at he
    cases he
  · rw [h] at he
    rw [hd]
    rcases writeNext_eq_goesOn he.symm with ⟨c, rest, hr, _, rfl⟩ | ⟨hne, hfresh, rfl⟩
    · exact ⟨rfl, Or.inl ⟨⟨c, hr⟩, rfl⟩⟩
    · refine ⟨rfl, Or.inr ⟨hne, rfl, rfl, ?_⟩⟩
      -- the line just opened is empty, so it is the first
      have hfirst : ¬ 1 < w.opened + 1 := by simpa [onNextLine] using hfresh
      simp [retries]
      omega

theorem turn_eq_ends_ok (h : w.turn max name = .ends (.ok v)) :
    v.opened = if w.due then w.opened + 1 else w.opened := by
  rcases turn_cases max name w with ⟨hd, he⟩ | ⟨hd, ⟨_, he⟩ | ⟨room, _, he⟩⟩
  · rw [writeNext_eq_ends_ok (he.symm.trans h), hd]
    rfl
  · rw [h] at he
    cases he
  · rw [writeNext_eq_ends_ok (he.symm.trans h), hd]
    rfl

theorem valid_start (out value : Text) : (start out value).Valid := ⟨nofun, nofun⟩

theorem opened_pos (hw : w.Valid) (h : w.turn max name = .goesOn v) : 0 < v.opened := by
  rw [(turn_eq_goesOn h).1]
  split
  · omega
  next hd => exact hw.opened_pos (Bool.eq_false_iff.mpr hd)

/-- A turn keeps a writer valid. -/
theorem valid_turn (hw : w.Valid) (h : w.turn max name = .goesOn v) : v.Valid := by
  refine ⟨fun _ => opened_pos hw h, fun hretries => ?_⟩
  rcases (turn_eq_goesOn h).2 with ⟨_, hd⟩ | ⟨hne, hr, _, _⟩
  · rw [retries, hd] at hretries
    cases hretries
  · exact hr ▸ hne

/-- **Each turn that goes on lowers the bound on the turns to come.** -/
theorem pending_lt (hw : w.Valid) (h : w.turn max name = .goesOn v) : v.pending < w.pending := by
  have hpos := opened_pos hw h
  rcases (turn_eq_goesOn h).2 with ⟨⟨c, hr⟩, _⟩ | ⟨_, hr, hd, hretries⟩
  · simp only [pending, hr, List.length_cons]
    split <;> split <;> omega
  · have hv : v.retries = true := by simp [retries, hd, hpos]
    simp [pending, hr, hv, hretries]

/-- A turn that opens a line has one left to open. -/
theorem one_le_linesLeft (hw : w.Valid) (hd : w.due = true) : 1 ≤ w.linesLeft := by
  by_cases ho : w.opened = 0
  · simp [linesLeft, hd, ho]
  · have hne := hw.rest_ne_nil (by simp [retries, hd, Nat.pos_of_ne_zero ho])
    have := List.length_pos_iff.mpr hne
    rw [linesLeft]
    omega

/-- **A turn that goes on takes the line that it opens from those left.** -/
theorem linesLeft_add_le (hw : w.Valid) (h : w.turn max name = .goesOn v) :
    v.linesLeft + (if w.due then 1 else 0) ≤ w.linesLeft := by
  have hpos := opened_pos hw h
  rcases (turn_eq_goesOn h).2 with ⟨⟨c, hr⟩, hd⟩ | ⟨_, hr, _, hretries⟩
  · simp only [linesLeft, hd, hr, List.length_cons, Bool.false_and, Bool.false_eq_true, if_false]
    split <;> omega
  · have hv : (v.opened == 0) = false := by simp; omega
    simp only [linesLeft, hv, hr, Bool.and_false, Bool.false_eq_true, if_false]
    cases hd : w.due with
    | false => simp
    | true =>
      have ho : w.opened = 0 := by simpa [retries, hd] using hretries
      simp [ho]

/-! ## A run -/

/-- **A writer ends, within the bound on its turns.** -/
theorem exists_run (max : Nat) (name : Text) (w : Writer) (hw : w.Valid) :
    ∃ ws r, Run max name w ws r ∧ ws.length ≤ w.pending := by
  cases ht : w.turn max name with
  | ends r =>
    refine ⟨[w], r, .ends ht, ?_⟩
    rw [pending, List.length_singleton]
    split <;> omega
  | goesOn v =>
    have hlt := pending_lt hw ht
    obtain ⟨ws, r, h, hle⟩ := exists_run max name v (valid_turn hw ht)
    exact ⟨w :: ws, r, .goesOn ht h, by rw [List.length_cons]; omega⟩
termination_by w.pending

/-- A run opens no more lines than are left. -/
theorem Run.countP_due_le (h : Run max name w ws r) (hw : w.Valid) : ws.countP (·.due) ≤ w.linesLeft := by
  induction h with
  | ends _ =>
    rw [List.countP_singleton]
    split
    next hd => exact one_le_linesLeft hw hd
    · exact Nat.zero_le _
  | goesOn ht _ ih =>
    rw [List.countP_cons]
    exact Nat.le_trans (Nat.add_le_add_right (ih (valid_turn hw ht)) _) (linesLeft_add_le hw ht)

/-- The lines opened in all are those opened before and those opened in the turns. -/
theorem Run.opened_eq (h : Run max name w ws (.ok v)) : v.opened = w.opened + ws.countP (·.due) := by
  generalize hr : Except.ok v = r at h
  induction h with
  | ends ht =>
    subst hr
    rw [turn_eq_ends_ok ht, List.countP_singleton]
    split <;> rfl
  | goesOn ht _ ih =>
    rw [ih hr, (turn_eq_goesOn ht).1, List.countP_cons]
    split <;> omega

/-- Filling gives one line for each character at most, and the first. -/
theorem length_fill_le {value : Text} {pieces : List Text} (h : (rule max name).fill value = some pieces) :
    pieces.length ≤ value.length + 1 := by
  have hvalid := valid_start [] value
  obtain ⟨ws, r, hrun, _⟩ := exists_run max name _ hvalid
  have hres := hrun.result_eq
  rw [h] at hres
  cases r with
  | error err => cases hres
  | ok w =>
    have hlines : w.opened = pieces.length := (Prod.mk.inj (Except.ok.inj hres)).2
    have hopened : w.opened = 0 + ws.countP (·.due) := hrun.opened_eq
    have hle : ws.countP (·.due) ≤ value.length + 1 := hrun.countP_due_le hvalid
    omega

/-- No character comes back. -/
theorem Run.length_rest_le (h : Run max name w ws r) : ∀ x ∈ ws, x.rest.length ≤ w.rest.length := by
  induction h with
  | ends _ => simp
  | @goesOn w v ws r ht _ ih =>
    have hle : v.rest.length ≤ w.rest.length := by
      rcases (turn_eq_goesOn ht).2 with ⟨⟨c, hr⟩, _⟩ | ⟨_, hr, _, _⟩
      · simp [hr]
      · rw [hr]
    intro x hx
    rcases List.mem_cons.mp hx with rfl | hx
    · exact Nat.le_refl _
    · exact Nat.le_trans (ih x hx) hle

/-- **No character is tried on two fresh lines behind the first.** -/
theorem Run.countP_retries_le (h : Run max name w ws r) (u : Text) :
    ws.countP (fun x => x.retries && x.rest == u) ≤ 1 := by
  induction h with
  | ends _ =>
    rw [List.countP_singleton]
    split <;> omega
  | @goesOn w v ws r ht hrun ih =>
    rw [List.countP_cons]
    split
    next hw =>
      obtain ⟨hretries, rfl⟩ : w.retries = true ∧ w.rest = u := by simpa using hw
      rcases (turn_eq_goesOn ht).2 with ⟨⟨c, hr⟩, _⟩ | ⟨_, _, _, hfalse⟩
      · -- the character was written, and no later writer has it left
        have hnone : ws.countP (fun x => x.retries && x.rest == w.rest) = 0 := by
          rw [List.countP_eq_zero]
          intro x hx hagain
          obtain ⟨_, heq⟩ : x.retries = true ∧ x.rest = w.rest := by simpa using hagain
          have hle := hrun.length_rest_le x hx
          rw [heq, hr, List.length_cons] at hle
          omega
        rw [hnone]
      · rw [hretries] at hfalse
        cases hfalse
    · exact ih

/-- **The writing of a value on continuation lines ends.** There is just one run of the writer, and it ends with the
lines that filling gives, or with the error that the name is too long if filling gives none. A line is opened in the
turns that find one due, and these are at most one more than the value has characters; all turns are at most two more
than twice as many. No character is tried on more than one fresh line behind the first. -/
theorem writing_ends (max : Nat) (name out value : Text) :
    ∃ ws r, (∀ ws' r', Run max name (start out value) ws' r' ↔ ws' = ws ∧ r' = r) ∧
      ((∃ w pieces, r = .ok w ∧ (rule max name).fill value = some pieces ∧
          w.out = out ++ (Form.continued pieces).render name ∧ w.opened = pieces.length ∧
          w.opened = ws.countP (·.due)) ∨
        r = .error (.nameTooLong name max) ∧ (rule max name).fill value = none) ∧
      ws.countP (·.due) ≤ value.length + 1 ∧
      ws.length ≤ 2 * value.length + 2 ∧
      ∀ u, ws.countP (fun w => w.retries && w.rest == u) ≤ 1 := by
  have hvalid := valid_start out value
  obtain ⟨ws, r, h, hlen⟩ := exists_run max name _ hvalid
  refine ⟨ws, r, fun ws' r' => ⟨fun h' => h.unique h', fun heq => ?_⟩, ?_, h.countP_due_le hvalid, hlen,
    h.countP_retries_le⟩
  · rw [heq.1, heq.2]
    exact h
  · have hres := h.result_eq
    cases hfill : (rule max name).fill value with
    | some pieces =>
      rw [hfill] at hres
      cases r with
      | error err => cases hres
      | ok w =>
        obtain ⟨hout, hopened⟩ := Prod.mk.inj (Except.ok.inj hres)
        exact Or.inl ⟨w, pieces, rfl, rfl, hout, hopened, h.opened_eq.trans (Nat.zero_add _)⟩
    | none =>
      rw [hfill] at hres
      cases r with
      | error err => exact Or.inr ⟨congrArg _ (Except.error.inj hres), rfl⟩
      | ok w => cases hres

/-- Two characters on three lines: the bound on the lines is reached, and the bound on the turns but for one. -/
example : ∃ ws r, Run 17 ['n'] (start [] ['€', '€']) ws r ∧ ws.countP (·.due) = 3 ∧ ws.length = 5 :=
  ⟨_, _, .goesOn rfl <| .goesOn rfl <| .goesOn rfl <| .goesOn rfl <| .ends rfl, rfl, rfl⟩

end FoldedHeader.Continuation.Writer
