import FoldedHeader.Proofs.LineWriter

/-!
# The columns of the open line

While a line is open, the columns written on it, the columns left for the value and the one kept for a semicolon make
the limit; what is written of the value and what is left make the value; and the writer knows whether the line has
anything of the value on it. `Accounts` states this of a writer, the text before the open line included. It holds when
the first line is opened (`accounts_first`), and the opening of a later line and a look at the next character keep it
(`Accounts.opening`, `Accounts.writeNext`). Hence it holds in every turn of a run (`Run.columns_accounted`).
-/

namespace FoldedHeader.Continuation.Writer

variable {max : Nat} {name out value before : Text} {w v : Writer} {ws : List Writer} {r : Except EncodeError Writer}

/-- The text before the line that is open after these turns: a line is begun in a turn that finds one due, behind what
is written by then. -/
def lineStart (out : Text) (ws : List Writer) : Text := ws.foldl (fun before w => if w.due then w.out else before) out

/-- What stands on line `k` with a piece of the value on it, from the fold space on. -/
def line (name : Text) (k : Nat) (piece : Text) : Text := [' '] ++ header name k ++ Percent.encode piece

/-- How the writer of a value behind the text `out` accounts for what is written while a line is open. The pieces
`closed` are on the lines before, and the open one was begun behind the text `before`. -/
structure Accounts (max : Nat) (name out value before : Text) (closed : List Text) (piece : Text) (w : Writer) :
    Prop where
  opened_eq : w.opened = closed.length + 1
  before_eq : before = out ++ (Form.continued closed).render name
  out_eq : w.out = before ++ [';', '\r', '\n'] ++ line name closed.length piece
  /-- The columns written, those left and the semicolon's make the limit. -/
  columns_eq : (line name closed.length piece).length + w.room + 1 = max
  /-- Nothing of the value is lost, and nothing is written twice. -/
  value_eq : closed.flatten ++ piece ++ w.rest = value
  empty_iff : w.empty = true ↔ Percent.encode piece = []

/-! ## Opening a line -/

/-- A line just opened has its header on it, and all the columns that this leaves. -/
theorem length_line_nil {k room : Nat} (h : room? max name k = some room) :
    (line name k []).length + room + 1 = max := by
  have hw := (room?_eq_some_iff.mp h).1
  have hlen := length_header name k
  simp only [line, Percent.encode_nil, List.append_nil, List.length_append, List.length_singleton]
  omega

/-- The first line is begun behind `out`. -/
theorem accounts_first (h : (start out value).opening max name = .ok v) :
    Accounts max name out value out [] [] v := by
  have hopen : (start out value).openLine max name = .ok v := h
  unfold openLine at hopen
  split at hopen
  · cases hopen
  next room hroom =>
    rw [Except.ok.injEq] at hopen
    subst hopen
    refine ⟨rfl, ?_, ?_, length_line_nil hroom, rfl, iff_of_true rfl rfl⟩
    · simp [Form.render_continued]
    · simp [onNextLine, start, line, fold]

/-- A later line is begun behind the lines before it. -/
theorem Accounts.opening {closed : List Text} {piece : Text} (h : Accounts max name out value before closed piece w)
    (hv : w.opening max name = .ok v) :
    ∃ closed' piece', Accounts max name out value (if w.due then w.out else before) closed' piece' v := by
  unfold Writer.opening at hv
  split at hv
  next hd =>
    unfold openLine at hv
    split at hv
    · cases hv
    next room hroom =>
      rw [Except.ok.injEq] at hv
      subst hv
      rw [if_pos hd]
      have hopened : w.opened = (closed ++ [piece]).length := by rw [h.opened_eq, List.length_append]; rfl
      rw [hopened] at hroom
      refine ⟨closed ++ [piece], [], congrArg (· + 1) hopened, ?_, ?_, length_line_nil hroom, ?_, iff_of_true rfl rfl⟩
      · rw [h.out_eq, h.before_eq, render_continued_concat]
        simp [line, fold]
      · simp [onNextLine, hopened, line, fold]
      · simpa [onNextLine] using h.value_eq
  next hd =>
    rw [Except.ok.injEq] at hv
    subst hv
    rw [if_neg hd]
    exact ⟨closed, piece, h⟩

/-! ## Looking at the next character -/

/-- A character that is written goes from the characters left to the open line, and its columns from those left to
those written; a line that is made due changes nothing yet. -/
theorem Accounts.writeNext {closed : List Text} {piece : Text} (h : Accounts max name out value before closed piece w)
    (hv : w.writeNext max name = .goesOn v) : ∃ piece', Accounts max name out value before closed piece' v := by
  rcases writeNext_eq_goesOn hv with ⟨c, rest, hr, hle, rfl⟩ | ⟨_, _, rfl⟩
  · have hline : line name closed.length (piece ++ [c]) = line name closed.length piece ++ Percent.encodeChar c := by
      simp [line]
    have hne : Percent.encode (piece ++ [c]) ≠ [] := by
      rw [← List.length_pos_iff, Percent.length_encode, Percent.encodedLength_append]
      have := Percent.charWidth_pos c
      simp only [Percent.encodedLength_cons]
      omega
    refine ⟨piece ++ [c], h.opened_eq, h.before_eq, ?_, ?_, ?_, iff_of_false Bool.false_ne_true hne⟩
    · rw [hline, ← List.append_assoc, ← h.out_eq]
    · have hcolumns := h.columns_eq
      rw [hline, List.length_append, Percent.length_encodeChar]
      show _ + (w.room - Percent.charWidth c) + 1 = max
      omega
    · rw [← h.value_eq, hr]
      simp
  · exact ⟨piece, h.opened_eq, h.before_eq, h.out_eq, h.columns_eq, h.value_eq, h.empty_iff⟩

/-! ## A run -/

/-- A turn begins with line 0 due, or with a line open. -/
def AtTurn (max : Nat) (name out value before : Text) (w : Writer) : Prop :=
  w = start out value ∨ ∃ closed piece, Accounts max name out value before closed piece w

theorem AtTurn.opening (h : AtTurn max name out value before w) (hv : w.opening max name = .ok v) :
    ∃ closed piece, Accounts max name out value (if w.due then w.out else before) closed piece v := by
  rcases h with rfl | ⟨closed, piece, h⟩
  · exact ⟨[], [], accounts_first hv⟩
  · exact h.opening hv

/-- A turn that goes on leads to a writer with a line open. -/
theorem AtTurn.turn (h : AtTurn max name out value before w) (hv : w.turn max name = .goesOn v) :
    AtTurn max name out value (if w.due then w.out else before) v := by
  cases ho : w.opening max name with
  | error err =>
    rw [turn_of_opening_error ho] at hv
    cases hv
  | ok u =>
    rw [turn_of_opening ho] at hv
    obtain ⟨closed, piece, hu⟩ := h.opening ho
    exact Or.inr ⟨closed, hu.writeNext hv⟩

/-- The accounts hold in every turn of a run, the line that is open being told from the turns before. -/
theorem Run.accounts_of_atTurn (h : Run max name w ws r) (hw : AtTurn max name out value before w)
    {us vs : List Writer} {x : Writer} (hx : ws = us ++ x :: vs) :
    AtTurn max name out value (lineStart before us) x := by
  induction h generalizing us before with
  | ends _ =>
    obtain ⟨rfl, hcons⟩ : us = [] ∧ [_] = x :: vs := by
      cases us with
      | nil => exact ⟨rfl, hx⟩
      | cons u us => simp at hx
    rw [List.cons.injEq] at hcons
    exact hcons.1 ▸ hw
  | goesOn ht _ ih =>
    cases us with
    | nil =>
      rw [List.nil_append, List.cons.injEq] at hx
      exact hx.1 ▸ hw
    | cons u us =>
      rw [List.cons_append, List.cons.injEq] at hx
      have := ih (hw.turn ht) hx.2
      rw [hx.1] at this
      exact this

/-- **The columns of the open line are accounted for in every turn**, both when it begins and when the writer looks at
the next character, which is behind the opening of a line that was due. What is written since the last fold is the fold
space, the header and a piece of the value; with the columns left and one more it takes the limit exactly. The pieces
written and the characters left are the value, and the flag says just whether the open line has nothing of it yet. -/
theorem Run.columns_accounted (h : Run max name (start out value) ws r) {us vs : List Writer}
    (hw : ws = us ++ w :: vs) :
    (0 < w.opened → ∃ closed piece, Accounts max name out value (lineStart out us) closed piece w) ∧
    ∀ v, w.opening max name = .ok v →
      ∃ closed piece, Accounts max name out value (lineStart out (us ++ [w])) closed piece v := by
  have hturn : AtTurn max name out value (lineStart out us) w := h.accounts_of_atTurn (Or.inl rfl) hw
  refine ⟨fun hpos => hturn.resolve_left ?_, fun v hv => ?_⟩
  · rintro rfl
    exact absurd hpos (Nat.lt_irrefl 0)
  · rw [lineStart, List.foldl_append]
    exact hturn.opening hv

/-- A character of six columns behind an empty line 0: it makes line 1 due with three columns left on line 0, and leaves
four on line 1. -/
theorem columns_accounted_behind_empty_line :
    let first : Writer := ⟨";\r\n n*0*=UTF-8''".toList, 1, 3, true, true, ['é']⟩
    let last : Writer := ⟨";\r\n n*0*=UTF-8'';\r\n n*1*=%C3%A9".toList, 2, 4, false, false, []⟩
    Run 17 ['n'] (start [] ['é']) [start [] ['é'], first, last] (.ok last) ∧
    0 < first.opened ∧ (∃ closed piece, Accounts 17 ['n'] [] ['é'] [] closed piece first) ∧
    last.opening 17 ['n'] = .ok last ∧ ∃ closed piece, Accounts 17 ['n'] [] ['é'] first.out closed piece last := by
  intro first last
  have h : Run 17 ['n'] (start [] ['é']) [start [] ['é'], first, last] (.ok last) :=
    .goesOn rfl <| .goesOn rfl <| .ends rfl
  have hfirst : [start [] ['é'], first, last] = [start [] ['é']] ++ first :: [last] := rfl
  have hlast : [start [] ['é'], first, last] = [start [] ['é'], first] ++ last :: [] := rfl
  have hpos : 0 < first.opened := Nat.one_pos
  exact ⟨h, hpos, (h.columns_accounted hfirst).1 hpos, rfl, (h.columns_accounted hlast).2 last rfl⟩

end FoldedHeader.Continuation.Writer
