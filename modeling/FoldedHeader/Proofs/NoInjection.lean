import FoldedHeader.Proofs.WrittenLines

/-!
# No injection through values

A value can hold anything, line breaks included, but it cannot end its line: in what an encoder writes behind the
primary value, a carriage return or a line feed is always that of a fold before one of the lines (`OnlyInFolds`,
`onlyInFolds`), all else is printable ASCII, and each line follows the grammar of its parameter
(`encode_noInjection`).
-/

namespace FoldedHeader

/-! ## Folds between lines -/

/-- Each occurrence of `x` in the text is that in the fold before some line, and there are as many as lines. -/
structure OnlyInFolds (x : Char) (lines : List Text) (text : Text) : Prop where
  count_eq : text.count x = lines.length
  exists_fold : ∀ before after, text = before ++ x :: after →
    ∃ k s t, k < lines.length ∧ fold = s ++ x :: t ∧ before = (lines.take k).flatMap (fold ++ ·) ++ s ∧ t <+: after

section Folds

variable {x : Char} {lines : List Text}

/-- An occurrence of a character behind a text that does not have it. -/
theorem exists_eq_append_of_notMem {s t before after : Text} (hx : x ∉ s) (h : s ++ t = before ++ x :: after) :
    ∃ b, before = s ++ b ∧ t = b ++ x :: after := by
  rcases List.append_eq_append_iff.mp h with ⟨b, hb, ht⟩ | ⟨b, hs, hb⟩
  · exact ⟨b, hb, ht⟩
  · cases b with
    | nil => exact ⟨[], by simpa using hs.symm, by simpa using hb.symm⟩
    | cons c b =>
      rw [List.cons_append, List.cons.injEq] at hb
      exact absurd (by rw [hs, hb.1]; simp) hx

theorem count_flatMap_fold (hf : fold.count x = 1) (hl : ∀ line ∈ lines, x ∉ line) :
    (lines.flatMap (fold ++ ·)).count x = lines.length := by
  induction lines with
  | nil => rfl
  | cons line lines ih =>
    have hline := List.count_eq_zero_of_not_mem (hl line List.mem_cons_self)
    rw [List.flatMap_cons, List.count_append, List.count_append, hf, hline,
      ih fun l hm => hl l (List.mem_cons_of_mem _ hm), List.length_cons]
    omega

/-- An occurrence of a character that a fold has once, and the lines do not have, is that in the fold before a line. -/
theorem exists_fold_of_eq_append {s t before after : Text} (hf : fold = s ++ x :: t) (hs : x ∉ s) (ht : x ∉ t)
    (hl : ∀ line ∈ lines, x ∉ line) (h : lines.flatMap (fold ++ ·) = before ++ x :: after) :
    ∃ k, k < lines.length ∧ before = (lines.take k).flatMap (fold ++ ·) ++ s ∧ t <+: after := by
  induction lines generalizing before with
  | nil => simp at h
  | cons line lines ih =>
    rw [List.flatMap_cons, List.append_assoc] at h
    have hsplit : s ++ x :: (t ++ (line ++ lines.flatMap (fold ++ ·))) = before ++ x :: after := by
      rw [← h, hf]
      simp
    obtain ⟨b, rfl, hb⟩ := exists_eq_append_of_notMem hs hsplit
    cases b with
    | nil =>
      -- the occurrence is that in the first fold
      rw [List.nil_append, List.cons.injEq] at hb
      exact ⟨0, Nat.succ_pos _, by simp, hb.2 ▸ List.prefix_append _ _⟩
    | cons c b =>
      rw [List.cons_append, List.cons.injEq, ← List.append_assoc] at hb
      have hx : x ∉ t ++ line := fun hm =>
        (List.mem_append.mp hm).elim ht (hl line List.mem_cons_self)
      obtain ⟨b', rfl, hrest⟩ := exists_eq_append_of_notMem hx hb.2
      obtain ⟨k, hk, hbefore, hafter⟩ := ih (fun l hm => hl l (List.mem_cons_of_mem _ hm)) hrest
      refine ⟨k + 1, Nat.succ_lt_succ hk, ?_, hafter⟩
      rw [hbefore, ← hb.1, List.take_succ_cons, List.flatMap_cons, hf]
      simp

/-- **The line breaks between lines without line breaks are those of their folds.** -/
theorem onlyInFolds {s t : Text} (hf : fold = s ++ x :: t) (hs : x ∉ s) (ht : x ∉ t) (hl : ∀ line ∈ lines, x ∉ line) :
    OnlyInFolds x lines (lines.flatMap (fold ++ ·)) := by
  have hcount : fold.count x = 1 := by
    rw [hf, List.count_append, List.count_cons_self, List.count_eq_zero_of_not_mem hs, List.count_eq_zero_of_not_mem ht]
  refine ⟨count_flatMap_fold hcount hl, fun before after h => ?_⟩
  obtain ⟨k, hk, hb, ha⟩ := exists_fold_of_eq_append hf hs ht hl h
  exact ⟨k, s, t, hk, hf, hb, ha⟩

end Folds

/-! ## What is written behind the value -/

/-- A tab, or a character from the space to the tilde. -/
def Printable (c : Char) : Prop := c = '\t' ∨ 0x20 ≤ c.toNat ∧ c.toNat ≤ 0x7e

theorem printable_of_class {c : Char} (h : isWsp c = true ∨ isVchar c = true) : Printable c := by
  rcases h with hw | hv
  · simp only [isWsp, Bool.or_eq_true, beq_iff_eq] at hw
    rcases hw with rfl | rfl
    · exact Or.inr (by decide)
    · exact Or.inl rfl
  · have := isVchar_iff.mp hv
    exact Or.inr ⟨by omega, by omega⟩

theorem Printable.toNat_lt {c : Char} (h : Printable c) : c.toNat < 128 := by
  rcases h with rfl | h
  · decide
  · omega

/-- Text behind the primary value that holds nothing but the lines of the parameters and the folds before them. -/
structure NoInjection (ps : List Parameter) (blocks : List (List Text)) (text : Text) : Prop where
  text_eq : text = blocks.flatten.flatMap (fold ++ ·)
  ascii : ∀ c ∈ text, c.toNat < 128
  carriageReturn : OnlyInFolds '\r' blocks.flatten text
  lineFeed : OnlyInFolds '\n' blocks.flatten text
  printable : ∀ c ∈ text, c ≠ '\r' → c ≠ '\n' → Printable c
  /-- Behind the fold space a line has the name and an equals sign or a star, and outside quotes nothing else but token
  characters. -/
  lines : List.Forall₂ (fun p block => ∀ line ∈ block, ParameterLine p.name line) ps blocks

section Lines

variable {lines : List Text} {x : Char}

/-- Between lines of white space and visible characters there are no line breaks but those of the folds. -/
theorem onlyInFolds_of_classes (hl : ∀ line ∈ lines, ∀ c ∈ line, isWsp c = true ∨ isVchar c = true) :
    OnlyInFolds '\r' lines (lines.flatMap (fold ++ ·)) ∧ OnlyInFolds '\n' lines (lines.flatMap (fold ++ ·)) := by
  constructor
  · refine onlyInFolds (s := [';']) (t := ['\n', ' ']) rfl (by decide) (by decide) fun line hm hx => ?_
    exact absurd (hl line hm '\r' hx) (by decide)
  · refine onlyInFolds (s := [';', '\r']) (t := [' ']) rfl (by decide) (by decide) fun line hm hx => ?_
    exact absurd (hl line hm '\n' hx) (by decide)

theorem printable_of_mem_flatMap_fold (hl : ∀ line ∈ lines, ∀ c ∈ line, isWsp c = true ∨ isVchar c = true)
    (hx : x ∈ lines.flatMap (fold ++ ·)) : x = '\r' ∨ x = '\n' ∨ Printable x := by
  obtain ⟨line, hm, hx⟩ := List.mem_flatMap.mp hx
  rcases List.mem_append.mp hx with hx | hx
  · simp only [fold, List.mem_cons, List.not_mem_nil, or_false] at hx
    rcases hx with rfl | rfl | rfl | rfl
    · exact Or.inr (Or.inr (Or.inr (by decide)))
    · exact Or.inl rfl
    · exact Or.inr (Or.inl rfl)
    · exact Or.inr (Or.inr (Or.inr (by decide)))
  · exact Or.inr (Or.inr (printable_of_class (hl line hm x hx)))

end Lines

namespace Encoder

variable {e : Encoder} {ps : List Parameter} {fs : List Form} {value out : Text}

theorem Chooses.parameterLines (h : e.Chooses ps fs) :
    List.Forall₂ (fun p block => ∀ line ∈ block, ParameterLine p.name line) ps (Form.blocks ps fs) := by
  induction h with
  | nil => exact .nil
  | cons hc _ ih => exact .cons (fun line hl => (Form.writes_of_choose hc).1.parameterLine hl) ih

/-- **No header is injected through a value.** Under names that are tokens, all that is written behind the primary value
is ASCII, a line break in it is that of a fold before one of the lines, and each line is one of the grammar of its
parameter. -/
theorem encode_noInjection (hn : ∀ p ∈ ps, isToken p.name = true) (h : e.encode value ps = .ok out) :
    ∃ fs text, e.Chooses ps fs ∧ out = value ++ text ∧ NoInjection ps (Form.blocks ps fs) text := by
  obtain ⟨fs, hfs, rfl⟩ := encode_eq_ok_iff.mp h
  have hnames : ∀ p ∈ ps, ∀ c ∈ p.name, isVchar c = true :=
    fun p hp c hc => isVchar_of_isTokenChar (isTokenChar_of_mem (hn p hp) hc)
  have hclasses : ∀ line ∈ (Form.blocks ps fs).flatten, ∀ c ∈ line, isWsp c = true ∨ isVchar c = true :=
    fun line hl c hc => hfs.writtenAs.1.classes_of_mem hnames hl hc
  obtain ⟨hcr, hlf⟩ := onlyInFolds_of_classes hclasses
  refine ⟨fs, _, hfs, rfl, rfl, fun c hc => ?_, hcr, hlf, fun c hc hne hne' => ?_, hfs.parameterLines⟩
  · rcases printable_of_mem_flatMap_fold hclasses hc with rfl | rfl | hp
    · decide
    · decide
    · exact hp.toNat_lt
  · rcases printable_of_mem_flatMap_fold hclasses hc with h | h | hp
    · exact absurd h hne
    · exact absurd h hne'
    · exact hp

/-- A value that tries to end its line and begin another header, and one that tries to end its quotes. -/
theorem noInjection_line_break :
    let ps : List Parameter := [⟨['a'], "x\r\nBcc: y".toList⟩, ⟨['b'], "\";\t\\".toList⟩]
    let text := ";\r\n a*=UTF-8''x%0D%0ABcc%3A%20y;\r\n b=\"\\\";\t\\\\\"".toList
    (∀ p ∈ ps, isToken p.name = true) ∧ (Encoder.mk 29).encode ['v'] ps = .ok ('v' :: text) ∧
      ∃ fs, (Encoder.mk 29).Chooses ps fs ∧ NoInjection ps (Form.blocks ps fs) text := by
  intro ps text
  have hn : ∀ p ∈ ps, isToken p.name = true := by decide
  have h : (Encoder.mk 29).encode ['v'] ps = .ok ('v' :: text) := by cbv
  obtain ⟨fs, text', hfs, heq, hno⟩ := encode_noInjection hn h
  have htext : text = text' := (List.cons.inj heq).2
  exact ⟨hn, h, fs, hfs, htext ▸ hno⟩

end Encoder

end FoldedHeader
