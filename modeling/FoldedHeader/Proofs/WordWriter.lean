import FoldedHeader.Proofs.BoundedTurns
import FoldedHeader.Proofs.WordArithmetic

/-!
# Writing continuation lines in words

The writer of continuation lines with its counts in words: the lines opened, the columns left on the open line, and the
columns that a header and a character take, each summed up as it is needed (`Writer`, `Writer.turn`). It ends whatever
the counts do, even if they wrap around (`Writer.pending_lt`), so that its run is a function (`Writer.run`).

Under a name that leaves 64 to the largest word, none of its operations leaves the range. The columns of a header are
told exactly (`gives_taken`, `gives_room`), the lines opened are bounded by those left to open, and the columns left by
the limit (`InWords`, kept by a turn). So a turn, a run and what is written are those of the writer that counts with
numbers (`gives_turn`, `gives_run`, `gives_appendContinued`).
-/

namespace FoldedHeader.Word

open Continuation (headerWidth room?)

/-- The columns that the header of line `k` and the semicolon behind the line take, under a name of that length. -/
def taken (nameLength k : UInt64) : Computation UInt64 := do
  let header ← addAll 1 [nameLength, 1, .ofNat (Nat.toDigits 10 k.toNat).length, 2]
  let header ← addAll header (if k = 0 then [.ofNat charsetMark.length] else [])
  add header 1

/-- The columns for the value on line `k`, if at least one triplet has room there. -/
def room (max nameLength : UInt64) (name : Text) (k : UInt64) : Computation UInt64 := do
  let taken ← taken nameLength k
  if taken ≤ max then
    let room ← sub max taken
    if 3 ≤ room then pure room else lift (.error (.nameTooLong name max.toNat))
  else lift (.error (.nameTooLong name max.toNat))

/-- The writing of a value on continuation lines, under way, with its lines and columns counted in words. -/
structure Writer where
  out : Text
  opened : UInt64
  room : UInt64
  due : Bool
  empty : Bool
  rest : Text

/-- What a turn leads to, if not to an error. -/
inductive Turn
  | goesOn (w : Writer)
  | ends (w : Writer)

variable {max nameLength : UInt64} {name : Text}

namespace Writer

/-- The writer behind the text `out`, with nothing of the value written and line 0 due. -/
def start (out value : Text) : Writer := ⟨out, 0, 0, true, true, value⟩

/-- Open the next line. -/
def openLine (max nameLength : UInt64) (name : Text) (w : Writer) : Computation Writer := do
  let room ← Word.room max nameLength name w.opened
  let opened ← add w.opened 1
  pure ⟨w.out ++ (fold ++ Continuation.header name w.opened.toNat), opened, room, false, true, w.rest⟩

/-- Look at the next character. The columns of its encoded form are worked out from its bytes. -/
def writeNext (max : UInt64) (name : Text) (w : Writer) : Computation Turn :=
  match w.rest with
  | [] => pure (.ends w)
  | c :: rest =>
    if UInt64.ofNat c.utf8Size == 1 && isAttributeChar c && decide (1 ≤ w.room) then do
      let room ← sub w.room 1
      pure (.goesOn ⟨w.out ++ [c], w.opened, room, w.due, false, rest⟩)
    else do
      let width ← mul (.ofNat c.utf8Size) 3
      if width ≤ w.room then
        let room ← sub w.room width
        pure (.goesOn ⟨w.out ++ (String.utf8EncodeChar c).flatMap Percent.triplet, w.opened, room, w.due, false, rest⟩)
      else if w.empty && decide (1 < w.opened) then lift (.error (.nameTooLong name max.toNat))
      else pure (.goesOn { w with due := true })

/-- Open the line that is due, if one is. -/
def opening (max nameLength : UInt64) (name : Text) (w : Writer) : Computation Writer :=
  if w.due then w.openLine max nameLength name else pure w

/-- Open the line that is due, if one is, and look at the next character. -/
def turn (max nameLength : UInt64) (name : Text) (w : Writer) : Computation Turn := do
  let v ← w.opening max nameLength name
  v.writeNext max name

/-- A bound on the lines still to be made due for the next character. It is given up on an empty line behind the first,
but the number of lines may wrap around to zero, and then there is a first line again. -/
def triesLeft (w : Writer) : Nat := if w.due then 2 - (w.opened + 1).toNat else 3

/-- A bound on the turns to come. -/
def pending (w : Writer) : Nat := 4 * w.rest.length + w.triesLeft

variable {w v : Writer}

/-- A look that goes on takes the next character, or makes a line due for it. -/
theorem writeNext_eq_goesOn (h : (w.writeNext max name).result = .ok (.goesOn v)) :
    (∃ c, w.rest = c :: v.rest) ∨ v = { w with due := true } ∧ (w.empty && decide (1 < w.opened)) = false := by
  unfold writeNext at h
  split at h
  · cases h
  next c rest hr =>
    split at h
    · obtain ⟨room, _, h⟩ := Computation.bind_eq_ok h
      cases h
      exact Or.inl ⟨c, hr⟩
    · obtain ⟨width, _, h⟩ := Computation.bind_eq_ok h
      split at h
      · obtain ⟨room, _, h⟩ := Computation.bind_eq_ok h
        cases h
        exact Or.inl ⟨c, hr⟩
      · split at h
        · cases h
        next hf =>
          cases h
          exact Or.inr ⟨rfl, Bool.eq_false_iff.mpr hf⟩

theorem openLine_eq_ok (h : (w.openLine max nameLength name).result = .ok v) :
    v.opened = w.opened + 1 ∧ v.empty = true ∧ v.rest = w.rest := by
  obtain ⟨room, _, h⟩ := Computation.bind_eq_ok h
  obtain ⟨opened, ho, h⟩ := Computation.bind_eq_ok h
  cases ho
  cases h
  exact ⟨rfl, rfl, rfl⟩

theorem triesLeft_le (w : Writer) : w.triesLeft ≤ 3 := by
  unfold triesLeft
  split <;> omega

theorem pending_lt_of_rest {c : Char} (h : w.rest = c :: v.rest) : v.pending < w.pending := by
  have := v.triesLeft_le
  rw [pending, pending, h, List.length_cons]
  omega

/-- A line that is made due for a character on a fresh line is one of the bound, however the lines are numbered. -/
theorem triesLeft_lt (hd : w.due = true) (hv : v.due = true) (ho : v.opened = w.opened + 1)
    (hf : ¬ 1 < v.opened) : v.triesLeft < w.triesLeft := by
  have hle : ¬ 1 < v.opened.toNat := fun h => hf (UInt64.lt_iff_toNat_lt.mpr h)
  have hnext : (v.opened + 1).toNat = v.opened.toNat + 1 := by
    rw [UInt64.toNat_add]
    exact Nat.mod_eq_of_lt (show v.opened.toNat + 1 < 2 ^ 64 by omega)
  rw [triesLeft, triesLeft, if_pos hd, if_pos hv, hnext, ← ho]
  omega

/-- **Each turn that goes on lowers the bound on the turns to come**, also if the number of lines wraps around. -/
theorem pending_lt (h : (w.turn max nameLength name).result = .ok (.goesOn v)) : v.pending < w.pending := by
  obtain ⟨u, hu, h⟩ := Computation.bind_eq_ok h
  unfold opening at hu
  split at hu
  next hd =>
    obtain ⟨hopened, hempty, hrest⟩ := openLine_eq_ok hu
    rcases writeNext_eq_goesOn h with ⟨c, hr⟩ | ⟨rfl, hf⟩
    · exact pending_lt_of_rest (hrest ▸ hr)
    · have hlt : ¬ 1 < u.opened := by simpa [hempty] using hf
      have := triesLeft_lt (v := { u with due := true }) hd rfl hopened hlt
      rw [pending, pending, ← hrest]
      exact Nat.add_lt_add_left this _
  next hd =>
    cases hu
    rcases writeNext_eq_goesOn h with ⟨c, hr⟩ | ⟨rfl, _⟩
    · exact pending_lt_of_rest hr
    · simp only [pending, triesLeft, hd, if_true, if_false, Bool.false_eq_true]
      omega

/-- Take turns until the writer ends. -/
def run (max nameLength : UInt64) (name : Text) (w : Writer) : Computation Writer :=
  match _h : (w.turn max nameLength name).result with
  | .ok (.goesOn v) =>
    ⟨(v.run max nameLength name).result,
      (w.turn max nameLength name).operations ++ (v.run max nameLength name).operations⟩
  | .ok (.ends v) => ⟨.ok v, (w.turn max nameLength name).operations⟩
  | .error err => ⟨.error err, (w.turn max nameLength name).operations⟩
termination_by w.pending
decreasing_by all_goals exact pending_lt _h

/-- A run is a turn, and a run from where it leads to. -/
theorem run_eq (max nameLength : UInt64) (name : Text) (w : Writer) :
    w.run max nameLength name = w.turn max nameLength name >>= fun
      | .goesOn v => v.run max nameLength name
      | .ends v => pure v := by
  rw [run]
  split
  next v hv => simp only [bind, hv]
  next v hv => simp only [bind, hv, pure, List.append_nil]
  next err hv => simp only [bind, hv]

end Writer

/-! ## As with numbers -/

/-- The header of a line and the semicolon fit in a word, since the number of a line has twenty digits at most. -/
theorem headerWidth_lt {k : Nat} (hn : name.length ≤ 2 ^ 64 - 64) (hk : k < 2 ^ 64) :
    headerWidth name k + 1 < 2 ^ 64 := by
  have hdigits : (Nat.toDigits 10 k).length ≤ 20 := by
    rw [Nat.length_toDigits_le_iff (by decide) (by decide)]
    omega
  have hmark : charsetMark.length = 7 := by decide
  unfold headerWidth
  split <;> omega

theorem gives_taken {k : Nat} (hn : name.length ≤ 2 ^ 64 - 64) (hk : k < 2 ^ 64) :
    (taken (.ofNat name.length) (.ofNat k)).Gives (.ok (.ofNat (headerWidth name k + 1))) := by
  have hzero : UInt64.ofNat k = 0 ↔ k = 0 := by
    rw [← UInt64.toNat_inj, toNat_ofNat hk]
    rfl
  have hmark : (if UInt64.ofNat k = 0 then [.ofNat charsetMark.length] else []) =
      (if k = 0 then [charsetMark.length] else []).map UInt64.ofNat := by
    simp only [hzero]
    split <;> rfl
  have hsum : 1 + [name.length, 1, (Nat.toDigits 10 k).length, 2].sum +
      (if k = 0 then [charsetMark.length] else []).sum = headerWidth name k := by
    unfold headerWidth
    split <;> simp only [List.sum_cons, List.sum_nil] <;> omega
  have hlt := headerWidth_lt hn hk
  rw [← hsum] at hlt ⊢
  rw [taken, toNat_ofNat hk, hmark]
  have hname := gives_addAll 1 [name.length, 1, (Nat.toDigits 10 k).length, 2] (by omega)
  have hheader := gives_addAll (1 + [name.length, 1, (Nat.toDigits 10 k).length, 2].sum)
    (if k = 0 then [charsetMark.length] else []) (by omega)
  exact hname.bind <| hheader.bind <| gives_add hlt

/-- Under the longest name that a word can count, a sum leaves the range, and the header seems to take twelve columns. -/
example : (taken 18446744073709551615 0).result = .ok 12 ∧
    ¬ ∀ o ∈ (taken 18446744073709551615 0).operations, o.InRange := by
  constructor
  · rfl
  · decide

/-- A line has the room in words that it has in numbers. -/
theorem gives_room (max : UInt64) {k : Nat} (hn : name.length ≤ 2 ^ 64 - 64) (hk : k < 2 ^ 64) :
    (room max (.ofNat name.length) name (.ofNat k)).Gives
      ((room? max.toNat name k).elim (.error (.nameTooLong name max.toNat)) fun r => .ok (.ofNat r)) := by
  have hlt := headerWidth_lt hn hk
  have hmax := max.toNat_lt
  unfold room
  refine (gives_taken hn hk).bind ?_
  by_cases hle : headerWidth name k + 1 ≤ max.toNat
  · rw [if_pos ((ofNat_le_iff hlt).mpr hle)]
    have hsub := gives_sub hmax hle
    rw [UInt64.ofNat_toNat] at hsub
    refine hsub.bind ?_
    have hthree : 3 ≤ UInt64.ofNat (max.toNat - (headerWidth name k + 1)) ↔ headerWidth name k + 1 + 3 ≤ max.toNat :=
      (ofNat_le_ofNat_iff (m := 3) (by decide) (by omega)).trans (by omega)
    by_cases h3 : headerWidth name k + 1 + 3 ≤ max.toNat
    · rw [if_pos (hthree.mpr h3), room?, if_pos h3]
      exact gives_pure _
    · rw [if_neg (hthree.not.mpr h3), room?, if_neg h3]
      exact gives_lift _
  · rw [if_neg ((ofNat_le_iff hlt).not.mpr hle), room?, if_neg (by omega)]
    exact gives_lift _

namespace Writer

/-- The writer with its numbers as words. -/
def ofNumbers (w : Continuation.Writer) : Writer := ⟨w.out, .ofNat w.opened, .ofNat w.room, w.due, w.empty, w.rest⟩

/-- What a turn with numbers leads to, in words. -/
def turnOfNumbers : Continuation.Turn → Except EncodeError Turn
  | .goesOn v => .ok (.goesOn (ofNumbers v))
  | .ends r => r.map fun v => .ends (ofNumbers v)

theorem gives_openLine {w : Continuation.Writer} (hn : name.length ≤ 2 ^ 64 - 64) (ho : w.opened + 1 < 2 ^ 64) :
    ((ofNumbers w).openLine max (.ofNat name.length) name).Gives ((w.openLine max.toNat name).map ofNumbers) := by
  have hroom := gives_room max hn (Nat.lt_of_succ_lt ho)
  unfold openLine Continuation.Writer.openLine
  cases hr : room? max.toNat name w.opened with
  | none =>
    rw [hr] at hroom
    exact hroom.bind_error
  | some room =>
    rw [hr] at hroom
    refine hroom.bind <| (gives_add ho).bind ?_
    have hk : (ofNumbers w).opened.toNat = w.opened := toNat_ofNat (Nat.lt_of_succ_lt ho)
    rw [hk]
    exact gives_pure _

theorem gives_writeNext {w : Continuation.Writer} (ho : w.opened < 2 ^ 64) (hr : w.room < 2 ^ 64) :
    ((ofNumbers w).writeNext max name).Gives (turnOfNumbers (w.writeNext max.toNat name)) := by
  obtain ⟨out, opened, room, due, empty, rest⟩ := w
  cases rest with
  | nil => exact gives_pure _
  | cons c rest =>
    have hsize := c.utf8Size_le_four
    have hone : (UInt64.ofNat c.utf8Size == 1) = (c.utf8Size == 1) := by
      rw [Bool.eq_iff_iff, beq_iff_eq, beq_iff_eq, ← UInt64.toNat_inj, toNat_ofNat (by omega)]
      rfl
    have hle : ∀ {n : Nat}, n < 2 ^ 64 → (UInt64.ofNat n ≤ .ofNat room ↔ n ≤ room) :=
      fun hn => ofNat_le_ofNat_iff hn hr
    have hopened : 1 < UInt64.ofNat opened ↔ 1 < opened := by
      rw [UInt64.lt_iff_toNat_lt, toNat_ofNat ho]
      rfl
    simp only [writeNext, ofNumbers, Continuation.Writer.writeNext, hone, hopened,
      show 1 ≤ UInt64.ofNat room ↔ 1 ≤ room from hle (by decide)]
    split
    next h =>
      simp only [Bool.and_eq_true, decide_eq_true_eq] at h
      exact (gives_sub hr h.2).bind (gives_pure _)
    · refine (gives_mul (m := c.utf8Size) (n := 3) (by omega) (by decide) (by omega)).bind ?_
      rw [Nat.mul_comm]
      by_cases hw : 3 * c.utf8Size ≤ room
      · rw [if_pos ((hle (by omega)).mpr hw), if_pos hw]
        exact (gives_sub hr hw).bind (gives_pure _)
      · rw [if_neg ((hle (by omega)).not.mpr hw), if_neg hw]
        split
        · exact gives_lift _
        · exact gives_pure _

theorem gives_opening (max : UInt64) {w : Continuation.Writer} (hn : name.length ≤ 2 ^ 64 - 64)
    (ho : w.due = true → w.opened + 1 < 2 ^ 64) :
    ((ofNumbers w).opening max (.ofNat name.length) name).Gives ((w.opening max.toNat name).map ofNumbers) := by
  unfold opening Continuation.Writer.opening
  cases hd : w.due with
  | false =>
    have hd' : (ofNumbers w).due = false := hd
    rw [if_neg (by simp [hd']), if_neg Bool.false_ne_true]
    exact gives_pure _
  | true =>
    have hd' : (ofNumbers w).due = true := hd
    rw [if_pos hd', if_pos rfl]
    exact gives_openLine hn (ho hd)

end Writer

/-! ## A run -/

section Run

open Continuation.Writer (Run)

/-- The lines that a writer has opened or has left to open can be counted in a word, and so can its columns. -/
structure InWords (max : UInt64) (w : Continuation.Writer) : Prop where
  valid : w.Valid
  opened_lt : w.opened + w.linesLeft < 2 ^ 64
  room_le : w.room ≤ max.toNat

variable {w v : Continuation.Writer} {ws : List Continuation.Writer} {r : Except EncodeError Continuation.Writer}

theorem inWords_start {out value : Text} (h : value.length + 1 < 2 ^ 64) :
    InWords max (Continuation.Writer.start out value) := by
  refine ⟨Continuation.Writer.valid_start out value, ?_, Nat.zero_le _⟩
  simpa [Continuation.Writer.start, Continuation.Writer.linesLeft] using h

theorem InWords.opened_add_one_lt (hw : InWords max w) (hd : w.due = true) : w.opened + 1 < 2 ^ 64 := by
  have := hw.opened_lt
  have := Continuation.Writer.one_le_linesLeft hw.valid hd
  omega

/-- A line just opened is one of those that may be, and has no more columns than the limit. -/
theorem InWords.opening (hw : InWords max w) (h : w.opening max.toNat name = .ok v) :
    v.opened < 2 ^ 64 ∧ v.room ≤ max.toNat := by
  unfold Continuation.Writer.opening at h
  split at h
  next hd =>
    unfold Continuation.Writer.openLine at h
    split at h
    · cases h
    next room hroom =>
      cases h
      have hle := (Continuation.room?_eq_some_iff.mp hroom).1
      exact ⟨hw.opened_add_one_lt hd, show room ≤ max.toNat by omega⟩
  next hd =>
    cases h
    exact ⟨Nat.lt_of_le_of_lt (Nat.le_add_right _ _) hw.opened_lt, hw.room_le⟩

theorem room_le_of_writeNext {limit : Nat} (h : w.writeNext limit name = .goesOn v) : v.room ≤ w.room := by
  rcases Continuation.Writer.writeNext_eq_goesOn h with ⟨c, rest, _, _, rfl⟩ | ⟨_, _, rfl⟩
  · exact Nat.sub_le _ _
  · exact Nat.le_refl _

/-- A turn keeps the numbers of a writer words. -/
theorem InWords.turn (hw : InWords max w) (h : w.turn max.toNat name = .goesOn v) : InWords max v := by
  refine ⟨Continuation.Writer.valid_turn hw.valid h, ?_, ?_⟩
  · have hle := Continuation.Writer.linesLeft_add_le hw.valid h
    have hlt := hw.opened_lt
    rw [(Continuation.Writer.turn_eq_goesOn h).1]
    split
    next hd =>
      rw [if_pos hd] at hle
      omega
    next hd =>
      rw [if_neg hd] at hle
      omega
  · cases hu : w.opening max.toNat name with
    | error err =>
      rw [Continuation.Writer.turn_of_opening_error hu] at h
      cases h
    | ok u =>
      rw [Continuation.Writer.turn_of_opening hu] at h
      exact Nat.le_trans (room_le_of_writeNext h) (hw.opening hu).2

open Writer (ofNumbers turnOfNumbers)

/-- **A turn in words is a turn with numbers.** -/
theorem gives_turn (hn : name.length ≤ 2 ^ 64 - 64) (hw : InWords max w) :
    ((ofNumbers w).turn max (.ofNat name.length) name).Gives (turnOfNumbers (w.turn max.toNat name)) := by
  have hopening := Writer.gives_opening max hn hw.opened_add_one_lt
  unfold Writer.turn
  cases hv : w.opening max.toNat name with
  | error err =>
    rw [hv] at hopening
    rw [Continuation.Writer.turn_of_opening_error hv]
    exact hopening.bind_error
  | ok v =>
    rw [hv] at hopening
    rw [Continuation.Writer.turn_of_opening hv]
    obtain ⟨ho, hr⟩ := hw.opening hv
    exact hopening.bind (Writer.gives_writeNext ho (Nat.lt_of_le_of_lt hr max.toNat_lt))

/-- **A run in words ends as the run with numbers does.** -/
theorem gives_run (hn : name.length ≤ 2 ^ 64 - 64) (h : Run max.toNat name w ws r) (hw : InWords max w) :
    ((ofNumbers w).run max (.ofNat name.length) name).Gives (r.map ofNumbers) := by
  induction h with
  | @ends w r ht =>
    have hturn := gives_turn hn hw
    rw [ht] at hturn
    rw [Writer.run_eq]
    cases r with
    | error err => exact hturn.bind_error
    | ok v => exact hturn.bind (gives_pure _)
  | goesOn ht _ ih =>
    have hturn := gives_turn hn hw
    rw [ht] at hturn
    rw [Writer.run_eq]
    exact hturn.bind (ih (hw.turn ht))

end Run

/-- Write a value on continuation lines behind the text `out`. The lines are counted. -/
def appendContinued (max nameLength : UInt64) (out : Text) (p : Parameter) : Computation (Text × UInt64) := do
  let w ← (Writer.start out p.value).run max nameLength p.name
  pure (w.out, w.opened)

/-- **Continuation lines are written in words as they are filled.** -/
theorem gives_appendContinued {out : Text} {p : Parameter} (hn : p.name.length ≤ 2 ^ 64 - 64)
    (hv : p.value.length + 1 < 2 ^ 64) :
    (appendContinued max (.ofNat p.name.length) out p).Gives
      ((Continuation.Writer.outcome max.toNat p.name out ((Continuation.rule max.toNat p.name).fill p.value)).map
        fun (text, lines) => (text, .ofNat lines)) := by
  have hw : InWords max (Continuation.Writer.start out p.value) := inWords_start hv
  obtain ⟨ws, r, h, _⟩ := Continuation.Writer.exists_run max.toNat p.name _ hw.valid
  have hrun := gives_run hn h hw
  rw [← h.result_eq]
  cases r with
  | error err => exact hrun.bind_error
  | ok v => exact hrun.bind (gives_pure _)

end FoldedHeader.Word
