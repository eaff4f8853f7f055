import FoldedHeader.Proofs.CheapestForm
import FoldedHeader.Proofs.LargerLimit
import FoldedHeader.Proofs.IndependentParameters
import FoldedHeader.Proofs.RoundTrip

/-!
# The events tell the truth

An encoder tells of each parameter that it writes in which form it stands, and on how many lines. This is true of the
text (`Event.TrueOf`, `Event.trueOf_of_choose`): the form told is that in which the value stands there, it can be seen
from the text alone (`Event.ofText`), and the lines are as many as the folds in it (`foldCount`). Over a whole run there
is one event for each parameter written, in order (`Event.Told`), and behind them one more if the next parameter cannot
be written (`Encoder.report_truthful`).
-/

namespace FoldedHeader

/-! ## Folds in a text -/

/-- The number of places in a text where a fold begins. -/
def foldCount (s : Text) : Nat := s.tails.countP fun t => fold.isPrefixOf t

theorem foldCount_nil : foldCount [] = 0 := rfl

theorem foldCount_cons (c : Char) (s : Text) :
    foldCount (c :: s) = foldCount s + if fold <+: c :: s then 1 else 0 := by
  simp only [foldCount, List.tails_cons, List.countP_cons, List.isPrefixOf_iff_prefix]

theorem foldCount_fold_append (s : Text) : foldCount (fold ++ s) = foldCount s + 1 := by
  simp [fold, foldCount_cons, List.cons_prefix_cons]

/-- No fold lies over the beginning of another: those of a text and of the folded text behind it are counted apart. -/
theorem foldCount_append (s : Text) {t : Text} (ht : t = [] ∨ fold <+: t) :
    foldCount (s ++ t) = foldCount s + foldCount t := by
  rcases ht with rfl | ⟨t, rfl⟩
  · rw [List.append_nil, foldCount_nil, Nat.add_zero]
  induction s with
  | nil => rw [List.nil_append, foldCount_nil, Nat.zero_add]
  | cons c s ih =>
    -- a fold at `c` that is not over at the end of `s` would end within the next fold
    have hiff : fold <+: c :: (s ++ (fold ++ t)) ↔ fold <+: c :: s := by
      constructor
      · intro h
        by_contra hno
        exact not_prefix_append_fold hno t h
      · intro h
        exact h.trans (List.prefix_append (c :: s) (fold ++ t))
    rw [List.cons_append, foldCount_cons, foldCount_cons, ih, if_congr hiff rfl rfl]
    omega

theorem nil_or_fold_flatMap (lines : List Text) :
    lines.flatMap (fold ++ ·) = [] ∨ fold <+: lines.flatMap (fold ++ ·) := by
  cases lines with
  | nil => exact Or.inl rfl
  | cons line lines =>
    rw [List.flatMap_cons, List.append_assoc]
    exact Or.inr (List.prefix_append _ _)

theorem foldCount_of_not_infix {s : Text} (h : ¬ fold <:+: s) : foldCount s = 0 := by
  induction s with
  | nil => rfl
  | cons c s ih =>
    obtain ⟨hp, hs⟩ := not_fold_cons h
    rw [foldCount_cons, ih hs, if_neg hp]

/-- Between lines without folds, there are the folds before the lines. -/
theorem foldCount_lines {lines : List Text} (h : ∀ line ∈ lines, ¬ fold <:+: line) :
    foldCount (lines.flatMap (fold ++ ·)) = lines.length := by
  induction lines with
  | nil => rfl
  | cons line lines ih =>
    rw [List.flatMap_cons, List.append_assoc, foldCount_fold_append, foldCount_append _ (nil_or_fold_flatMap lines),
      foldCount_of_not_infix (h line List.mem_cons_self), ih fun l hl => h l (List.mem_cons_of_mem _ hl),
      List.length_cons]
    omega

/-- Under a name without a carriage return, the folds in what is written for a parameter are those before its lines. -/
theorem Form.foldCount_render {max : Nat} {p : Parameter} {f : Form} (hn : '\r' ∉ p.name) (h : choose max p = .ok f) :
    foldCount (f.render p.name) = (f.lines p.name).length := by
  apply foldCount_lines
  intro line hl hf
  have hcr : '\r' ∈ line := hf.subset (by decide)
  rcases ((writes_of_choose h).1.parameterLine hl).mem_name_or_classes hcr with hm | hc
  · exact hn hm
  · exact absurd hc (by decide)

/-! ## What an event says of a text -/

namespace Event

/-- Does the event tell of a value that is not percent-encoded? -/
def isPlain : Event → Bool
  | token _ | quoted _ => true
  | extended _ _ | nameTooLong _ _ => false

/-- The lines that the event tells of. -/
def lines? : Event → Option Nat
  | extended _ k => some k
  | token _ | quoted _ | nameTooLong _ _ => none

/-- The event tells of the parameter `p` in the form in which it stands in this text. -/
inductive Tells (p : Parameter) : Event → Text → Prop
  | token : isToken p.value = true → Tells p (.token p.name) (fold ++ tokenLine p)
  | quoted : isQuotable p.value = true → Tells p (.quoted p.name) (fold ++ quotedLine p)
  | extended : Tells p (.extended p.name 1) (fold ++ extendedLine p)
  | continued {pieces : List Text} : 2 ≤ pieces.length → pieces.flatten = p.value →
      Tells p (.extended p.name pieces.length)
        (pieces.mapIdx fun k piece => fold ++ (Continuation.header p.name k ++ Percent.encode piece)).flatten

/-- The event that can be seen from what is written for a parameter of this name: behind the name stand an equals sign
and a quote, an equals sign and something else, or a star. -/
def ofText (name text : Text) : Event :=
  match text.drop (fold.length + name.length) with
  | '=' :: '"' :: _ => .quoted name
  | '=' :: _ => .token name
  | _ => .extended name (foldCount text)

/-- What the event says is true of the parameter `p` and what is written for it. -/
structure TrueOf (p : Parameter) (ev : Event) (text : Text) : Prop where
  level : ev.level = .trace
  parameter : ev.parameter = p.name
  tells : Tells p ev text
  seen : ev = ofText p.name text
  plain : ev.isPlain = true → foldCount text = 1
  lines : ∀ k, ev.lines? = some k → foldCount text = k

section Forms

variable {max : Nat} {p : Parameter} {f : Form}

theorem tells_of_choose (h : Form.choose max p = .ok f) : Tells p (f.event p.name) (f.render p.name) := by
  cases (Form.writes_of_choose h).1 with
  | token hv =>
    rw [Form.render, Form.lines, List.flatMap_singleton]
    exact .token hv
  | quoted hq =>
    rw [Form.render, Form.lines_quoted hq, List.flatMap_singleton]
    exact .quoted (QuotedString.isQuotable_of_quote hq).1
  | extended =>
    rw [Form.render, Form.lines, List.flatMap_singleton]
    exact .extended
  | continued _ hflat =>
    obtain ⟨hn, hfill⟩ := Form.choose_eq_continued h
    rw [Form.render_continued]
    exact .continued ((Continuation.layout_of_fill hfill).two_le_length hn) hflat

theorem drop_fold_append (name rest : Text) : (fold ++ (name ++ rest)).drop (fold.length + name.length) = rest := by
  rw [← List.append_assoc, ← List.length_append, List.drop_left]

/-- A star behind the name tells of percent-encoding. -/
theorem ofText_star (name rest : Text) : ofText name (fold ++ (name ++ '*' :: rest)) =
    .extended name (foldCount (fold ++ (name ++ '*' :: rest))) := by
  rw [ofText, drop_fold_append]
  split
  · rename_i heq
    cases heq
  · rename_i heq
    cases heq
  · rfl

/-- Behind the equals sign of a token is no quote. -/
theorem ofText_token (name : Text) {value : Text} (hv : isToken value = true) :
    ofText name (fold ++ (name ++ '=' :: value)) = .token name := by
  rw [ofText, drop_fold_append]
  split
  · rename_i heq
    rw [(List.cons.inj heq).2] at hv
    exact absurd (isTokenChar_of_mem hv List.mem_cons_self) (by decide)
  · rfl
  · rename_i hno
    exact absurd rfl (hno value)

/-- The form that an event tells of can be seen. -/
theorem seen_of_choose (hn : '\r' ∉ p.name) (h : Form.choose max p = .ok f) :
    f.event p.name = ofText p.name (f.render p.name) := by
  have hcount := Form.foldCount_render hn h
  cases (Form.writes_of_choose h).1 with
  | token hv =>
    have hrender : (Form.token p.value).render p.name = fold ++ (p.name ++ '=' :: p.value) := by
      simp [Form.render, Form.lines]
    rw [hrender, ofText_token p.name hv]
    rfl
  | @quoted text hq =>
    have hrender : (Form.quoted text).render p.name =
        fold ++ (p.name ++ '=' :: '"' :: (p.value.flatMap QuotedString.escapeChar ++ ['"'])) := by
      simp [Form.render, Form.lines_quoted hq, quotedLine]
    rw [hrender, ofText, drop_fold_append]
    rfl
  | extended =>
    have hrender : (Form.extended p.value).render p.name =
        fold ++ (p.name ++ '*' :: '=' :: (charsetMark ++ Percent.encode p.value)) := by
      simp [Form.render, Form.lines]
    rw [hrender] at hcount ⊢
    rw [ofText_star, hcount]
    rfl
  | @continued pieces hne _ =>
    obtain ⟨piece, pieces, rfl⟩ := List.exists_cons_of_ne_nil hne
    obtain ⟨rest, hrender⟩ :
        ∃ rest, (Form.continued (piece :: pieces)).render p.name = fold ++ (p.name ++ '*' :: rest) := by
      simp [Form.render, Form.lines, Continuation.header]
    rw [hrender] at hcount ⊢
    rw [ofText_star, hcount, Form.length_lines_continued]
    rfl

/-- **The event told of a parameter is true of what is written for it.** -/
theorem trueOf_of_choose (hn : '\r' ∉ p.name) (h : Form.choose max p = .ok f) :
    TrueOf p (f.event p.name) (f.render p.name) := by
  have hcount := Form.foldCount_render hn h
  refine ⟨?_, ?_, tells_of_choose h, seen_of_choose hn h, ?_, ?_⟩
  · cases f <;> rfl
  · cases f <;> rfl
  · intro hplain
    cases f with
    | token _ => exact hcount
    | quoted _ => exact hcount
    | extended _ => cases hplain
    | continued _ => cases hplain
  · intro k hk
    cases f with
    | token _ => cases hk
    | quoted _ => cases hk
    | extended _ => exact hcount.trans (Option.some.inj hk)
    | continued pieces => exact (hcount.trans (Form.length_lines_continued p.name pieces)).trans (Option.some.inj hk)

end Forms

/-! ## What the events of a run say -/

/-- There is one event for each parameter, in order, and it is true of the parameter and its text. -/
inductive Told : List Parameter → List Event → List Text → Prop
  | nil : Told [] [] []
  | cons {p : Parameter} {ev : Event} {text : Text} {ps : List Parameter} {evs : List Event} {texts : List Text} :
      TrueOf p ev text → Told ps evs texts → Told (p :: ps) (ev :: evs) (text :: texts)

variable {ps : List Parameter} {evs : List Event} {texts : List Text}

theorem TrueOf.fold_isPrefix {p : Parameter} {ev : Event} {text : Text} (h : TrueOf p ev text) : fold <+: text := by
  cases h.tells with
  | token => exact List.prefix_append _ _
  | quoted => exact List.prefix_append _ _
  | extended => exact List.prefix_append _ _
  | @continued pieces hlen _ =>
    obtain ⟨piece, pieces, rfl⟩ := List.exists_cons_of_length_pos (Nat.lt_of_succ_lt hlen)
    rw [List.mapIdx_cons, List.flatten_cons, List.append_assoc]
    exact List.prefix_append _ _

theorem Told.nil_or_fold (h : Told ps evs texts) : texts.flatten = [] ∨ fold <+: texts.flatten := by
  cases h with
  | nil => exact Or.inl rfl
  | cons hp _ =>
    rw [List.flatten_cons]
    exact Or.inr (hp.fold_isPrefix.trans (List.prefix_append _ _))

theorem TrueOf.foldCount_eq {p : Parameter} {ev : Event} {text : Text} (h : TrueOf p ev text) :
    foldCount text = [ev].countP isPlain + ([ev].filterMap lines?).sum := by
  cases ev with
  | token _ => exact h.plain rfl
  | quoted _ => exact h.plain rfl
  | extended _ k => exact (h.lines k rfl).trans (Nat.zero_add k).symm
  | nameTooLong _ _ => cases h.level

/-- The folds in the texts are those that the events tell of: one for each plain value, and the lines of the others. -/
theorem Told.foldCount_eq (h : Told ps evs texts) :
    foldCount texts.flatten = evs.countP isPlain + (evs.filterMap lines?).sum := by
  induction h with
  | nil => rfl
  | @cons p ev text ps evs texts hp hps ih =>
    have hevs : ev :: evs = [ev] ++ evs := rfl
    rw [List.flatten_cons, foldCount_append text hps.nil_or_fold, ih, hp.foldCount_eq, hevs, List.countP_append,
      List.filterMap_append, List.sum_append]
    omega

theorem Told.level_of_mem (h : Told ps evs texts) {ev : Event} (hev : ev ∈ evs) : ev.level = .trace := by
  induction h with
  | nil => cases hev
  | cons hp _ ih =>
    rcases List.mem_cons.mp hev with rfl | hev
    · exact hp.level
    · exact ih hev

theorem Told.filter_debug_eq_nil (h : Told ps evs texts) : evs.filter (·.level = .debug) = [] := by
  apply List.filter_eq_nil_iff.mpr
  intro ev hev
  rw [h.level_of_mem hev]
  decide

end Event

namespace Encoder

variable {e : Encoder} {ps : List Parameter} {fs : List Form}

theorem Chooses.told (h : e.Chooses ps fs) (hn : ∀ p ∈ ps, '\r' ∉ p.name) :
    ∃ texts, Event.Told ps (Form.events ps fs) texts ∧
      texts.flatten = (Form.blocks ps fs).flatten.flatMap (fold ++ ·) := by
  induction h with
  | nil => exact ⟨[], .nil, rfl⟩
  | @cons p f ps fs hf _ ih =>
    obtain ⟨texts, htold, heq⟩ := ih fun q hq => hn q (List.mem_cons_of_mem _ hq)
    refine ⟨f.render p.name :: texts, .cons (Event.trueOf_of_choose (hn p List.mem_cons_self) hf) htold, ?_⟩
    rw [List.flatten_cons, heq]
    simp [Form.blocks, Form.render]

/-- The events of a run tell what is true of it. If it gives a text, there is one event for each parameter, in order,
and the folds behind the value are those that the events tell of. If it gives none, the events are those of the
parameters before the first that fails alone, and behind them the only one that is more than a trace, with the name and
the limit of the error. -/
def Truthful (e : Encoder) (value : Text) (ps : List Parameter) : Report → Prop
  | ⟨events, .ok out⟩ => ∃ texts, Event.Told ps events texts ∧ out = value ++ texts.flatten ∧
      foldCount texts.flatten = events.countP Event.isPlain + (events.filterMap Event.lines?).sum
  | ⟨events, .error err⟩ => ∃ before p after told texts, ps = before ++ p :: after ∧ Event.Told before told texts ∧
      e.encode value before = .ok (value ++ texts.flatten) ∧ (¬ ∃ text, e.encode [] [p] = .ok text) ∧
      err = .nameTooLong p.name e.maxLineLength ∧ events = told ++ [.nameTooLong p.name e.maxLineLength] ∧
      events.filter (·.level = .debug) = [.nameTooLong p.name e.maxLineLength]

/-- **The events tell the truth**, whether or not the run gives a text. -/
theorem report_truthful (hn : ∀ p ∈ ps, '\r' ∉ p.name) (value : Text) : e.Truthful value ps (e.report value ps) := by
  rcases chooses_or_first e ps with ⟨fs, hfs⟩ | ⟨before, fs, p, after, rfl, hfs, hp⟩
  · obtain ⟨texts, htold, heq⟩ := hfs.told hn
    rw [hfs.report_eq, ← heq]
    exact ⟨texts, htold, rfl, htold.foldCount_eq⟩
  · obtain ⟨texts, htold, heq⟩ := hfs.told fun q hq => hn q (List.mem_append_left _ hq)
    rw [hfs.report_of_error hp]
    refine ⟨before, p, after, _, texts, rfl, htold, ?_, not_alone_of_error hp, rfl, rfl, ?_⟩
    · rw [hfs.encode_eq, heq]
    · rw [List.filter_append, htold.filter_debug_eq_nil, List.nil_append]
      rfl

/-- One parameter in each form, and one whose name is too long before another that is not reached. -/
theorem truthful_until_too_long :
    let ps : List Parameter := [⟨['t'], ['x']⟩, ⟨['q'], ['b', ' ', 'c']⟩, ⟨['u'], ['é']⟩, ⟨['u'], ['€', '€']⟩,
      ⟨"longer-name".toList, ['é']⟩, ⟨['t'], ['y']⟩]
    let told : List Event := [.token ['t'], .quoted ['q'], .extended ['u'] 1, .extended ['u'] 2]
    (∀ p ∈ ps, '\r' ∉ p.name) ∧
      (Encoder.mk 24).report ['v'] ps =
        ⟨told ++ [.nameTooLong "longer-name".toList 24], .error (.nameTooLong "longer-name".toList 24)⟩ ∧
      ∃ before texts, before <+: ps ∧ Event.Told before told texts ∧ foldCount texts.flatten = 5 := by
  intro ps told
  have hn : ∀ p ∈ ps, '\r' ∉ p.name := by decide
  have h : (Encoder.mk 24).report ['v'] ps =
      ⟨told ++ [.nameTooLong "longer-name".toList 24], .error (.nameTooLong "longer-name".toList 24)⟩ := by cbv
  have htrue := report_truthful (e := ⟨24⟩) hn ['v']
  rw [h] at htrue
  obtain ⟨before, p, after, told', texts, hps, htold, _, _, herr, hevs, _⟩ := htrue
  obtain ⟨hname, _⟩ := EncodeError.nameTooLong.inj herr
  rw [hname] at hevs
  obtain rfl := List.append_cancel_right hevs
  exact ⟨hn, h, before, texts, hps ▸ List.prefix_append _ _, htold, htold.foldCount_eq⟩

end Encoder

end FoldedHeader
