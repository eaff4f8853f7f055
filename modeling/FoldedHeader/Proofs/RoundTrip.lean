import Mathlib.Data.List.TakeDrop
import Mathlib.Data.List.TakeWhile
import FoldedHeader.Reader
import FoldedHeader.Proofs.WrittenLines

/-!
# Reading undoes writing

A folded text is divided at the folds between its lines and nowhere else (`splitFold_append_lines`). Under a plain name,
which has token characters only and no star, each line says what it was written for (`mapM_lines`), and the assignments
of one parameter are collected to this parameter, whatever begins behind them (`collect_assignments`). Hence an encoded
value with its parameters is read back (`decode_of_encode`).
-/

namespace FoldedHeader

/-! ## Folds -/

theorem splitFold_cons {c : Char} {s : Text} (h : ¬ fold <+: c :: s) :
    splitFold (c :: s) = (c :: (splitFold s).1, (splitFold s).2) := by
  rw [splitFold]
  rintro s' rfl rfl
  exact h ⟨s', rfl⟩

theorem splitFold_fold (s : Text) : splitFold (fold ++ s) = ([], (splitFold s).1 :: (splitFold s).2) := rfl

/-- In a text without a fold, none begins, neither at the first character nor behind it. -/
theorem not_fold_cons {c : Char} {s : Text} (h : ¬ fold <:+: c :: s) : ¬ fold <+: c :: s ∧ ¬ fold <:+: s := by
  constructor
  · intro hp
    exact h hp.isInfix
  · intro hi
    exact h (hi.trans (List.suffix_cons c s).isInfix)

/-- A fold does not overlap a later one. -/
theorem not_prefix_append_fold {c : Char} {s : Text} (h : ¬ fold <+: c :: s) (t : Text) :
    ¬ fold <+: c :: (s ++ (fold ++ t)) := by
  intro hp
  match s, h with
  | [], _ | [_], _ | [_, _], _ => simp [fold, List.cons_prefix_cons] at hp
  | x :: y :: z :: s, h => exact h (by simpa [fold, List.cons_prefix_cons] using hp)

/-- A text without a fold is cut off at the fold behind it. -/
theorem splitFold_append_fold {s : Text} (h : ¬ fold <:+: s) (t : Text) :
    splitFold (s ++ (fold ++ t)) = (s, (splitFold t).1 :: (splitFold t).2) := by
  induction s with
  | nil => exact splitFold_fold t
  | cons c s ih =>
    obtain ⟨hp, hs⟩ := not_fold_cons h
    rw [List.cons_append, splitFold_cons (not_prefix_append_fold hp t), ih hs]

theorem splitFold_of_not_infix {s : Text} (h : ¬ fold <:+: s) : splitFold s = (s, []) := by
  induction s with
  | nil => rfl
  | cons c s ih =>
    obtain ⟨hp, hs⟩ := not_fold_cons h
    rw [splitFold_cons hp, ih hs]

/-- Lines without folds are divided at the folds before them. -/
theorem splitFold_append_lines : ∀ {value : Text} {lines : List Text}, ¬ fold <:+: value →
    (∀ line ∈ lines, ¬ fold <:+: line) → splitFold (value ++ lines.flatMap (fold ++ ·)) = (value, lines)
  | value, [], hv, _ => by rw [List.flatMap_nil, List.append_nil, splitFold_of_not_infix hv]
  | value, line :: lines, hv, hl => by
    rw [List.flatMap_cons, List.append_assoc, splitFold_append_fold hv,
      splitFold_append_lines (hl line List.mem_cons_self) fun l hm => hl l (List.mem_cons_of_mem _ hm)]

theorem not_fold_infix {s : Text} (h : ∀ c ∈ s, isWsp c = true ∨ isVchar c = true) : ¬ fold <:+: s := by
  intro hf
  exact absurd (h '\r' (hf.subset (by decide))) (by decide)

/-! ## Lines -/

/-- A name of token characters, none of them a star. -/
def PlainName (name : Text) : Prop := ∀ c ∈ name, isTokenChar c = true ∧ c ≠ '*'

theorem PlainName.isVchar {name : Text} (h : PlainName name) {c : Char} (hc : c ∈ name) : isVchar c = true :=
  isVchar_of_isTokenChar (h c hc).1

theorem PlainName.ne_equals {name : Text} (h : PlainName name) {c : Char} (hc : c ∈ name) : c ≠ '=' := by
  rintro rfl
  exact absurd (h '=' hc).1 (by decide)

namespace Assignment

variable {name : Text}

theorem span_append_cons {p : Char → Bool} {c : Char} {s t : Text} (hs : ∀ x ∈ s, p x = true) (hc : p c = false) :
    (s ++ c :: t).span p = (s, c :: t) := by
  rw [List.span_eq_takeWhile_dropWhile, List.takeWhile_append_of_pos hs, List.dropWhile_append_of_pos hs]
  simp [hc]

theorem ofText?_plain (hn : PlainName name) (value : Text) :
    ofText? (name ++ ['='] ++ value) = some (plain name value) := by
  have hs : ∀ x ∈ name, (x != '=') = true := fun x hx => bne_iff_ne.mpr (hn.ne_equals hx)
  have hlast : name.getLast? ≠ some '*' := fun h => (hn '*' (List.mem_of_getLast? h)).2 rfl
  rw [List.append_assoc, List.singleton_append, ofText?, span_append_cons hs (by decide)]
  simp [hlast]

theorem ofText?_star {stem : Text} (hs : ∀ x ∈ stem, x ≠ '=') (body : Text) :
    ofText? (stem ++ ['*', '='] ++ body) = ofStem? stem body := by
  have hs' : ∀ x ∈ stem ++ ['*'], (x != '=') = true := by
    intro x hx
    rcases List.mem_append.mp hx with hx | hx
    · exact bne_iff_ne.mpr (hs x hx)
    · rw [List.mem_singleton.mp hx]
      decide
  rw [show stem ++ ['*', '='] ++ body = (stem ++ ['*']) ++ '=' :: body by simp, ofText?,
    span_append_cons hs' (by decide)]
  simp

theorem ofStem?_name (hn : PlainName name) (body : Text) : ofStem? name body = some (extended name body) := by
  have hs : ∀ x ∈ name.reverse, (x != '*') = true := fun x hx => bne_iff_ne.mpr (hn x (List.mem_reverse.mp hx)).2
  rw [ofStem?, List.span_eq_takeWhile_dropWhile, List.takeWhile_eq_self_iff.mpr hs, List.dropWhile_eq_nil_iff.mpr hs]

theorem number?_toDigits (k : Nat) : number? (Nat.toDigits 10 k) = some k := by
  have hd : ∀ c ∈ Nat.toDigits 10 k, c.isDigit = true :=
    fun c hc => Nat.isDigit_of_mem_toDigits (by decide) (by decide) hc
  have hv : digits? (Nat.toDigits 10 k) = some k := by
    simp [digits?, List.all_eq_true.mpr hd, Nat.ofDigitChars_ten_toDigits]
  unfold number?
  split
  next s hs =>
    -- a number as it is written has no plus sign
    exact absurd (hd '+' (by simp [hs])) (by decide)
  · exact hv

theorem ne_of_mem_toDigits {k : Nat} {x : Char} (hx : x ∈ Nat.toDigits 10 k) : x ≠ '*' ∧ x ≠ '=' := by
  have hd := Nat.isDigit_of_mem_toDigits (by decide) (by decide) hx
  constructor
  · rintro rfl
    exact absurd hd (by decide)
  · rintro rfl
    exact absurd hd (by decide)

theorem ofStem?_number (k : Nat) (body : Text) :
    ofStem? (name ++ ['*'] ++ Nat.toDigits 10 k) body = some (piece name k body) := by
  have hs : ∀ x ∈ (Nat.toDigits 10 k).reverse, (x != '*') = true :=
    fun x hx => bne_iff_ne.mpr (ne_of_mem_toDigits (List.mem_reverse.mp hx)).1
  rw [ofStem?, show (name ++ ['*'] ++ Nat.toDigits 10 k).reverse =
    (Nat.toDigits 10 k).reverse ++ '*' :: name.reverse by simp, span_append_cons hs (by decide)]
  simp [number?_toDigits]

theorem ofText?_header (hn : PlainName name) (k : Nat) (body : Text) :
    ofText? (Continuation.header name k ++ body) = some (piece name k (Continuation.mark k ++ body)) := by
  have hs : ∀ x ∈ name ++ ['*'] ++ Nat.toDigits 10 k, x ≠ '=' := by
    intro x hx
    simp only [List.mem_append, List.mem_singleton] at hx
    rcases hx with (hx | rfl) | hx
    · exact hn.ne_equals hx
    · decide
    · exact (ne_of_mem_toDigits hx).2
  rw [Continuation.header, List.append_assoc _ (Continuation.mark k), ofText?_star hs, ofStem?_number]

end Assignment

/-- What the lines of a form say. -/
def Form.assignments (name : Text) : Form → List Assignment
  | token value => [.plain name value]
  | quoted text => [.plain name text]
  | extended value => [.extended name (charsetMark ++ Percent.encode value)]
  | continued pieces => pieces.mapIdx fun k piece => .piece name k (Continuation.mark k ++ Percent.encode piece)

/-- Numbered lines that can each be read can be read one behind the other. -/
theorem mapM_mapIdx {α β γ : Type} {g : β → Option γ} : ∀ {l : List α} {f : Nat → α → β} {h : Nat → α → γ},
    (∀ k a, g (f k a) = some (h k a)) → (l.mapIdx f).mapM g = some (l.mapIdx h)
  | [], _, _, _ => rfl
  | a :: l, f, h, hg => by
    rw [List.mapIdx_cons, List.mapIdx_cons, List.mapM_cons, hg,
      mapM_mapIdx (l := l) (h := fun k => h (k + 1)) fun k => hg (k + 1)]
    rfl

/-- **Each line says what it was written for.** -/
theorem Form.mapM_lines {name : Text} (hn : PlainName name) (f : Form) :
    (f.lines name).mapM Assignment.ofText? = some (f.assignments name) := by
  cases f with
  | token value => simp only [lines, List.mapM_cons, Assignment.ofText?_plain hn]; rfl
  | quoted text => simp only [lines, List.mapM_cons, Assignment.ofText?_plain hn]; rfl
  | extended value =>
    rw [lines, List.append_assoc _ charsetMark, List.mapM_cons,
      Assignment.ofText?_star (fun x hx => hn.ne_equals hx), Assignment.ofStem?_name hn]
    rfl
  | continued pieces => exact mapM_mapIdx fun k piece => Assignment.ofText?_header hn k _

/-! ## Collecting -/

namespace Reader

/-- The assignments begin with those of a new parameter, if there are any. -/
def Opens : List Assignment → Prop
  | .piece _ (_ + 1) _ :: _ => False
  | _ => True

theorem flush_none : flush none = some [] := rfl

theorem dropMark?_append (body : Text) : dropMark? (charsetMark ++ body) = some body := by
  simp [dropMark?]

/-- What is pending is given out where a new parameter begins. -/
theorem collect_of_opens : ∀ {as : List Assignment}, Opens as → ∀ pending : Option (Text × Text),
    collect pending as = (flush pending).bind fun ps => (collect none as).map (ps ++ ·)
  | [], _, pending => by
    simp only [collect, flush_none]
    cases flush pending <;> simp
  | .plain _ text :: as, _, pending => by
    simp only [collect, flush_none]
    cases flush pending <;> cases QuotedString.unquote text <;> cases collect none as <;> rfl
  | .extended _ body :: as, _, pending => by
    simp only [collect, flush_none]
    cases dropMark? body with
    | none => cases flush pending <;> rfl
    | some body =>
      simp only [Option.bind_eq_bind, Option.bind_some]
      cases flush pending <;> cases Percent.decode body <;> cases collect none as <;> rfl
  | .piece name 0 body :: as, _, pending => by
    simp only [collect, flush_none]
    cases dropMark? body with
    | none => cases flush pending <;> rfl
    | some body =>
      simp only [Option.bind_eq_bind, Option.bind_some]
      cases flush pending <;> cases collect (some (name, body)) as <;> rfl
  | .piece _ (_ + 1) _ :: _, h, _ => h.elim

/-- Later pieces are joined to what is pending under their name. -/
theorem collect_pieces (name : Text) (as : List Assignment) : ∀ (pieces : List Text) (k : Nat) (joined : Text),
    collect (some (name, joined))
      ((pieces.mapIdx fun i piece => .piece name (i + (k + 1)) (Percent.encode piece)) ++ as) =
    collect (some (name, joined ++ Percent.encode pieces.flatten)) as
  | [], _, joined => by simp
  | piece :: pieces, k, joined => by
    have hk : ∀ i, i + 1 + (k + 1) = i + (k + 1 + 1) := fun i => by omega
    simp only [List.mapIdx_cons, List.cons_append, Nat.zero_add, collect, if_true, hk]
    rw [collect_pieces name as pieces (k + 1), List.flatten_cons, Percent.encode_append, List.append_assoc]

end Reader

section Collecting

variable {p : Parameter} {f : Form} {as : List Assignment}

/-- The assignments of a parameter begin a new one. -/
theorem Form.Writes.opens (hw : f.Writes p) : Reader.Opens (f.assignments p.name ++ as) := by
  cases hw with
  | token _ | quoted _ | extended => trivial
  | @continued pieces hne _ =>
    cases pieces with
    | nil => exact absurd rfl hne
    | cons piece pieces =>
      simp only [assignments, List.mapIdx_cons, List.cons_append]
      trivial

/-- **The assignments of a parameter are collected to it**, whatever parameter begins behind them. -/
theorem Form.Writes.collect_assignments (hw : f.Writes p) (ho : Reader.Opens as) :
    Reader.collect none (f.assignments p.name ++ as) = (Reader.collect none as).map (p :: ·) := by
  cases hw with
  | token hv =>
    simp only [assignments, List.singleton_append, Reader.collect, Reader.flush_none,
      QuotedString.unquote_of_isToken hv]
    cases Reader.collect none as <;> rfl
  | quoted hq =>
    simp only [assignments, List.singleton_append, Reader.collect, Reader.flush_none, QuotedString.unquote_quote hq]
    cases Reader.collect none as <;> rfl
  | extended =>
    simp only [assignments, List.singleton_append, Reader.collect, Reader.flush_none, Reader.dropMark?_append,
      Percent.decode_encode, Option.bind_eq_bind, Option.bind_some]
    cases Reader.collect none as <;> rfl
  | @continued pieces hne hflat =>
    cases pieces with
    | nil => exact absurd rfl hne
    | cons piece pieces =>
      have hjoin := Reader.collect_pieces p.name as pieces 0 (Percent.encode piece)
      rw [← Percent.encode_append, ← List.flatten_cons, hflat, Reader.collect_of_opens ho] at hjoin
      simp only [Nat.zero_add, Reader.flush, Percent.decode_encode, Option.map_some, Option.bind_some] at hjoin
      have hstart : Reader.collect none ((Form.continued (piece :: pieces)).assignments p.name ++ as) =
          Reader.collect (some (p.name, Percent.encode piece))
            ((pieces.mapIdx fun i piece => .piece p.name (i + 1) (Percent.encode piece)) ++ as) := by
        simp [assignments, Reader.collect, Reader.flush_none, Continuation.mark, Reader.dropMark?_append]
      rw [hstart, hjoin]
      rfl

end Collecting

/-! ## The round trip -/

/-- Lines under plain names are read as the parameters for which they were written. -/
theorem WrittenAs.exists_assignments {ps : List Parameter} {lines : List Text} (h : WrittenAs ps lines)
    (hn : ∀ p ∈ ps, PlainName p.name) :
    ∃ as, lines.mapM Assignment.ofText? = some as ∧ Reader.Opens as ∧ Reader.collect none as = some ps := by
  induction h with
  | nil => exact ⟨[], rfl, trivial, rfl⟩
  | @cons p f ps lines hw _ ih =>
    obtain ⟨as, has, ho, hc⟩ := ih fun q hq => hn q (List.mem_cons_of_mem _ hq)
    refine ⟨f.assignments p.name ++ as, ?_, hw.opens, ?_⟩
    · rw [List.mapM_append, Form.mapM_lines (hn p List.mem_cons_self), has]
      rfl
    · rw [hw.collect_assignments ho, hc, Option.map_some]

/-- **Reading undoes writing.** -/
theorem decode_of_encode {e : Encoder} {value out : Text} {ps : List Parameter} (hv : ¬ fold <:+: value)
    (hn : ∀ p ∈ ps, ∀ c ∈ p.name, isTokenChar c = true ∧ c ≠ '*') (h : e.encode value ps = .ok out) :
    decode out = some (value, ps) := by
  rcases e.encode_cases ps with ⟨lines, hw, _, henc⟩ | ⟨p, _, henc⟩
  · rw [henc, Except.ok.injEq] at h
    obtain ⟨as, has, _, hc⟩ := hw.exists_assignments hn
    have hl : ∀ line ∈ lines, ¬ fold <:+: line := fun line hl =>
      not_fold_infix fun c hc => hw.classes_of_mem (fun p hp c hc => PlainName.isVchar (hn p hp) hc) hl hc
    rw [← h, decode, splitFold_append_lines hv hl]
    simp [has, hc]
  · rw [henc] at h
    cases h

set_option maxRecDepth 2000 in
/-- Every form on lines of twenty-four columns, the last two under one name and next to each other. -/
theorem decode_of_encode_every_form :
    let ps : List Parameter := [⟨['t'], ['x']⟩, ⟨['q'], "a \"b\\".toList⟩, ⟨['u'], ['é']⟩, ⟨['u'], "€€".toList⟩,
      ⟨['u'], "%\r\n€".toList⟩]
    let out := ("a/b;\r\n t=x;\r\n q=\"a \\\"b\\\\\";\r\n u*=UTF-8''%C3%A9;\r\n u*0*=UTF-8''%E2%82%AC" ++
      ";\r\n u*1*=%E2%82%AC;\r\n u*0*=UTF-8''%25%0D%0A;\r\n u*1*=%E2%82%AC").toList
    ¬ fold <:+: "a/b".toList ∧ (∀ p ∈ ps, ∀ c ∈ p.name, isTokenChar c = true ∧ c ≠ '*') ∧
      (Encoder.mk 24).encode "a/b".toList ps = .ok out ∧ decode out = some ("a/b".toList, ps) := by
  intro ps out
  have hv : ¬ fold <:+: "a/b".toList := by decide
  have hall : (ps.all fun p => p.name.all fun c => isTokenChar c && c != '*') = true := by decide
  have hn : ∀ p ∈ ps, ∀ c ∈ p.name, isTokenChar c = true ∧ c ≠ '*' := by
    simpa only [List.all_eq_true, Bool.and_eq_true, bne_iff_ne] using hall
  have h : (Encoder.mk 24).encode "a/b".toList ps = .ok out := by cbv
  exact ⟨hv, hn, h, decode_of_encode hv hn h⟩

end FoldedHeader
