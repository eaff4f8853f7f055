import FoldedHeader.Proofs.ContinuedParameter
import FoldedHeader.Proofs.RoundTrip

/-!
# Distinct parameters have distinct encodings

A line is divided at its first equals sign, and what stands before it ends in a star just if the value is
percent-encoded. But a star may also end a name, and then the line of a token under this name can be that of a
percent-encoded value under the name without the star (`Encoder.encode_starred`). This is the only way in which two
lists of parameters come to share an encoding: if no name is another token with a star behind it (`ClearName`), the
lines tell the parameters (`Block.eq_of_append`), and so does the text (`Encoder.parameters_eq_of_encode_eq`).

Stars inside a name do no harm. A line may then be both a percent-encoded value of its own and the beginning of a
numbered one, but not the line behind it: only there does percent-encoded text follow a star without a mark
(`GoesOn`).
-/

namespace FoldedHeader

/-! ## Names and the sides of a line -/

/-- A name that is a token, and no other token with a star behind it. -/
structure ClearName (name : Text) : Prop where
  isToken : isToken name = true
  ne_starred : ∀ stem, FoldedHeader.isToken stem = true → name ≠ stem ++ ['*']

/-- A token that does not end in a star is a clear name. -/
theorem ClearName.of_getLast? {name : Text} (h : FoldedHeader.isToken name = true) (hl : name.getLast? ≠ some '*') :
    ClearName name := by
  refine ⟨h, ?_⟩
  rintro stem _ rfl
  exact hl List.getLast?_concat

theorem notMem_of_isToken {s : Text} {c : Char} (hc : isTokenChar c = false) (h : isToken s = true) : c ∉ s := by
  intro hm
  rw [isTokenChar_of_mem h hm] at hc
  cases hc

theorem isToken_append {s t : Text} (hs : isToken s = true) (ht : ∀ c ∈ t, isTokenChar c = true) :
    isToken (s ++ t) = true := by
  simp only [isToken, Bool.and_eq_true, Bool.not_eq_true', List.isEmpty_eq_false_iff, List.all_append,
    List.all_eq_true] at hs ⊢
  exact ⟨List.append_ne_nil_of_left_ne_nil hs.1 t, hs.2, ht⟩

/-- What stands before the first equals sign and behind it. -/
theorem sides_inj {s t u v : Text} (hs : '=' ∉ s) (ht : '=' ∉ t) (h : s ++ '=' :: u = t ++ '=' :: v) :
    s = t ∧ u = v := by
  have hne : ∀ {x : Text}, '=' ∉ x → ∀ c ∈ x, (c != '=') = true := fun hx c hc =>
    bne_iff_ne.mpr fun he => hx (he ▸ hc)
  have hspan := congrArg (List.span (· != '=')) h
  rw [Assignment.span_append_cons (hne hs) (by decide), Assignment.span_append_cons (hne ht) (by decide),
    Prod.mk.injEq, List.cons.injEq] at hspan
  exact ⟨hspan.1, hspan.2.2⟩

theorem Percent.encode_inj {s t : Text} (h : encode s = encode t) : s = t := by
  have hd := congrArg decode h
  rwa [decode_encode, decode_encode, Option.some.injEq] at hd

/-! ## Lines under a clear name -/

/-- A line on which only a later piece of a value can stand: percent-encoded text without a mark, behind a star. -/
def GoesOn (line : Text) : Prop :=
  ∃ stem body, isToken stem = true ∧ '\'' ∉ body ∧ line = stem ++ ['*'] ++ '=' :: body

/-- The lines begin with the first of a parameter, if there are any. -/
def Begins : (lines : List Text) → Prop
  | [] => True
  | line :: _ => ¬ GoesOn line

/-- The name and the number before a piece of a value. -/
def numberedStem (name : Text) (k : Nat) : Text := name ++ '*' :: Nat.toDigits 10 k

/-- A line with a piece of a value. -/
def numberedLine (name : Text) (k : Nat) (piece : Text) : Text := Continuation.header name k ++ Percent.encode piece

section Lines

variable {name name' : Text}

theorem isToken_numberedStem (h : isToken name = true) (k : Nat) : isToken (numberedStem name k) = true := by
  apply isToken_append h
  intro c hc
  rcases List.mem_cons.mp hc with rfl | hc
  · decide
  · exact isTokenChar_of_isDigit (Nat.isDigit_of_mem_toDigits (by decide) (by decide) hc)

theorem numberedLine_eq (name : Text) (k : Nat) (piece : Text) : numberedLine name k piece =
    numberedStem name k ++ ['*'] ++ '=' :: (Continuation.mark k ++ Percent.encode piece) := by
  simp [numberedLine, numberedStem, Continuation.header]

theorem equals_notMem (h : isToken name = true) : '=' ∉ name := notMem_of_isToken (by decide) h

theorem equals_notMem_starred (h : isToken name = true) : '=' ∉ name ++ ['*'] := by
  simp [equals_notMem h]

/-- Behind a star and an equals sign, two lines under tokens are equal just if both parts are. -/
theorem starred_inj {stem stem' u v : Text} (h : isToken stem = true) (h' : isToken stem' = true)
    (heq : stem ++ ['*'] ++ '=' :: u = stem' ++ ['*'] ++ '=' :: v) : stem = stem' ∧ u = v := by
  obtain ⟨hs, hu⟩ := sides_inj (equals_notMem_starred h) (equals_notMem_starred h') heq
  exact ⟨List.append_cancel_right hs, hu⟩

/-- A line without a star behind its name is none with a star behind a token. -/
theorem ClearName.ne_starred_line (h : ClearName name) {stem u v : Text} (hs : FoldedHeader.isToken stem = true) :
    name ++ '=' :: u ≠ stem ++ ['*'] ++ '=' :: v := by
  intro heq
  exact h.ne_starred stem hs (sides_inj (equals_notMem h.isToken) (equals_notMem_starred hs) heq).1

theorem ClearName.not_goesOn (h : ClearName name) (u : Text) : ¬ GoesOn (name ++ '=' :: u) := by
  rintro ⟨stem, body, hs, _, heq⟩
  exact h.ne_starred_line hs heq

/-- A line with a mark begins a value. -/
theorem not_goesOn_of_mark {stem : Text} (h : isToken stem = true) (u : Text) :
    ¬ GoesOn (stem ++ ['*'] ++ '=' :: (charsetMark ++ u)) := by
  rintro ⟨stem', body, hs, hb, heq⟩
  rw [← (starred_inj h hs heq).2] at hb
  exact hb (List.mem_append_left _ (by decide))

/-- Behind the first, a line with a piece of a value begins none. -/
theorem goesOn_numberedLine (h : isToken name = true) (k : Nat) (piece : Text) :
    GoesOn (numberedLine name (k + 1) piece) := by
  refine ⟨numberedStem name (k + 1), Percent.encode piece, isToken_numberedStem h (k + 1), ?_, ?_⟩
  · intro hm
    rcases Percent.isAttributeChar_of_mem_encode hm with hc | hc
    · exact absurd hc (by decide)
    · exact absurd hc (by decide)
  · rw [numberedLine_eq, Continuation.mark, if_neg (Nat.succ_ne_zero k), List.nil_append]

theorem numberedLine_inj (h : isToken name = true) (h' : isToken name' = true) {k : Nat} {piece piece' : Text}
    (heq : numberedLine name k piece = numberedLine name' k piece') : name = name' ∧ piece = piece' := by
  rw [numberedLine_eq, numberedLine_eq] at heq
  obtain ⟨hs, hb⟩ := starred_inj (isToken_numberedStem h k) (isToken_numberedStem h' k) heq
  exact ⟨List.append_cancel_right hs, Percent.encode_inj (List.append_cancel_left hb)⟩

/-- Later lines of a value end where the next parameter begins: if one value had more of them, the next of these would
begin the lines behind the other. -/
theorem laterLines_inj (hn : isToken name = true) : ∀ {pieces pieces' : List Text} {k : Nat} {lines lines' : List Text},
    Begins lines → Begins lines' →
    pieces.mapIdx (fun i => numberedLine name (i + (k + 1))) ++ lines =
      pieces'.mapIdx (fun i => numberedLine name (i + (k + 1))) ++ lines' →
    pieces = pieces' ∧ lines = lines'
  | [], [], _, _, _, _, _, h => ⟨rfl, h⟩
  | [], piece :: _, k, _, _, hl, _, h => by
    rw [List.mapIdx_nil, List.nil_append] at h
    rw [h, List.mapIdx_cons, Nat.zero_add] at hl
    exact absurd (goesOn_numberedLine hn k piece) hl
  | piece :: _, [], k, _, _, _, hl, h => by
    rw [List.mapIdx_nil, List.nil_append] at h
    rw [← h, List.mapIdx_cons, Nat.zero_add] at hl
    exact absurd (goesOn_numberedLine hn k piece) hl
  | piece :: pieces, piece' :: pieces', k, _, _, hl, hl', h => by
    have hk : ∀ i, i + 1 + (k + 1) = i + (k + 1 + 1) := fun i => by omega
    simp only [List.mapIdx_cons, List.cons_append, List.cons.injEq, hk] at h
    obtain ⟨-, rfl⟩ := numberedLine_inj hn hn h.1
    obtain ⟨rfl, hlines⟩ := laterLines_inj hn hl hl' h.2
    exact ⟨rfl, hlines⟩

end Lines

/-! ## The lines of a parameter -/

/-- The lines of a parameter, as they can be told apart: what a plain value is read from, or percent-encoded text on one
line or on several. -/
inductive Block (name value : Text) : List Text → Prop
  | plain {text : Text} : QuotedString.unquote text = some value → Block name value [name ++ '=' :: text]
  | extended : Block name value [name ++ ['*'] ++ '=' :: (charsetMark ++ Percent.encode value)]
  | continued {piece piece' : Text} {pieces : List Text} : (piece :: piece' :: pieces).flatten = value →
      Block name value (numberedLine name 0 piece :: (piece' :: pieces).mapIdx fun i => numberedLine name (i + 1))

theorem Form.block_of_choose {max : Nat} {p : Parameter} {f : Form} (h : choose max p = .ok f) :
    Block p.name p.value (f.lines p.name) := by
  cases (writes_of_choose h).1 with
  | token hv =>
    rw [lines, List.append_assoc]
    exact .plain (QuotedString.unquote_of_isToken hv)
  | quoted hq =>
    rw [lines, List.append_assoc]
    exact .plain (QuotedString.unquote_quote hq)
  | extended =>
    have heq : (extended p.value).lines p.name =
        [p.name ++ ['*'] ++ '=' :: (charsetMark ++ Percent.encode p.value)] := by simp [lines]
    rw [heq]
    exact .extended
  | @continued pieces _ hflat =>
    obtain ⟨hn, hfill⟩ := choose_eq_continued h
    have hlen := (Continuation.layout_of_fill hfill).two_le_length hn
    rcases pieces with _ | ⟨piece, _ | ⟨piece', pieces⟩⟩
    · exact absurd hlen (by decide)
    · exact absurd hlen (Nat.not_succ_le_self 1)
    · rw [lines, List.mapIdx_cons]
      exact .continued hflat

namespace Block

variable {name value name' value' : Text} {block block' lines lines' : List Text}

theorem ne_nil (hb : Block name value block) : block ≠ [] := by
  cases hb with
  | plain _ => exact List.cons_ne_nil _ _
  | extended => exact List.cons_ne_nil _ _
  | continued _ => exact List.cons_ne_nil _ _

theorem begins (hb : Block name value block) (hn : ClearName name) (rest : List Text) : Begins (block ++ rest) := by
  cases hb with
  | plain _ => exact hn.not_goesOn _
  | extended => exact not_goesOn_of_mark hn.isToken _
  | @continued piece _ _ _ =>
    rw [numberedLine_eq]
    exact not_goesOn_of_mark (isToken_numberedStem hn.isToken 0) (Percent.encode piece)

/-- Behind a line that is a parameter's only one, no value goes on. -/
theorem singleton_ne_continued (hl : Begins lines) (hn : isToken name = true) {line line' piece : Text}
    {pieces : List Text} :
    [line] ++ lines ≠ line' :: ((piece :: pieces).mapIdx fun i => numberedLine name (i + 1)) ++ lines' := by
  intro h
  simp only [List.mapIdx_cons, List.cons_append, List.nil_append, List.cons.injEq] at h
  rw [h.2] at hl
  exact hl (goesOn_numberedLine hn 0 piece)

/-- **The lines of a parameter under a clear name tell the parameter and where they end.** -/
theorem eq_of_append (hb : Block name value block) (hb' : Block name' value' block') (hn : ClearName name)
    (hn' : ClearName name') (hl : Begins lines) (hl' : Begins lines') (h : block ++ lines = block' ++ lines') :
    name = name' ∧ value = value' ∧ lines = lines' := by
  cases hb with
  | plain hu =>
    cases hb' with
    | plain hu' =>
      obtain ⟨hline, hlines⟩ := List.cons.inj h
      obtain ⟨rfl, rfl⟩ := sides_inj (equals_notMem hn.isToken) (equals_notMem hn'.isToken) hline
      rw [hu, Option.some.injEq] at hu'
      exact ⟨rfl, hu', hlines⟩
    | extended => exact absurd (List.cons.inj h).1 (hn.ne_starred_line hn'.isToken)
    | continued _ => exact absurd h (singleton_ne_continued hl hn'.isToken)
  | extended =>
    cases hb' with
    | plain _ => exact absurd (List.cons.inj h).1.symm (hn'.ne_starred_line hn.isToken)
    | extended =>
      obtain ⟨hline, hlines⟩ := List.cons.inj h
      obtain ⟨rfl, htext⟩ := starred_inj hn.isToken hn'.isToken hline
      exact ⟨rfl, Percent.encode_inj (List.append_cancel_left htext), hlines⟩
    | continued _ => exact absurd h (singleton_ne_continued hl hn'.isToken)
  | continued hflat =>
    cases hb' with
    | plain _ => exact absurd h.symm (singleton_ne_continued hl' hn.isToken)
    | extended => exact absurd h.symm (singleton_ne_continued hl' hn.isToken)
    | continued hflat' =>
      obtain ⟨hline, hrest⟩ := List.cons.inj h
      obtain ⟨rfl, rfl⟩ := numberedLine_inj hn.isToken hn'.isToken hline
      obtain ⟨hpieces, hlines⟩ := laterLines_inj hn.isToken hl hl' hrest
      rw [← hpieces] at hflat'
      exact ⟨rfl, hflat.symm.trans hflat', hlines⟩

end Block

/-! ## The text tells the parameters -/

namespace Encoder

variable {e e' : Encoder} {ps ps' : List Parameter} {fs fs' : List Form} {value out : Text}

theorem Chooses.begins (h : e.Chooses ps fs) (hn : ∀ p ∈ ps, ClearName p.name) :
    Begins (Form.blocks ps fs).flatten := by
  cases h with
  | nil => trivial
  | cons hf _ => exact (Form.block_of_choose hf).begins (hn _ List.mem_cons_self) _

/-- Only for no parameters there are no lines. -/
theorem Chooses.eq_nil_of_flatten_eq_nil (h : e.Chooses ps fs) (heq : (Form.blocks ps fs).flatten = []) : ps = [] := by
  cases h with
  | nil => rfl
  | cons hf _ => exact absurd (List.append_eq_nil_iff.mp heq).1 (Form.block_of_choose hf).ne_nil

/-- **The lines of parameters under clear names tell the parameters.** -/
theorem Chooses.eq_of_lines (h : e.Chooses ps fs) (h' : e'.Chooses ps' fs') (hn : ∀ p ∈ ps, ClearName p.name)
    (hn' : ∀ p ∈ ps', ClearName p.name)
    (heq : (Form.blocks ps fs).flatten = (Form.blocks ps' fs').flatten) : ps = ps' := by
  induction h generalizing ps' fs' with
  | nil => exact (h'.eq_nil_of_flatten_eq_nil heq.symm).symm
  | @cons p f ps fs hf hfs ih =>
    cases h' with
    | nil => exact absurd (List.append_eq_nil_iff.mp heq).1 (Form.block_of_choose hf).ne_nil
    | @cons q g qs gs hg hgs =>
      have hps : ∀ p ∈ ps, ClearName p.name := fun p hp => hn p (List.mem_cons_of_mem _ hp)
      have hqs : ∀ q ∈ qs, ClearName q.name := fun q hq => hn' q (List.mem_cons_of_mem _ hq)
      obtain ⟨hname, hvalue, hlines⟩ := (Form.block_of_choose hf).eq_of_append (Form.block_of_choose hg)
        (hn p List.mem_cons_self) (hn' q List.mem_cons_self) (Chooses.begins hfs hps) (Chooses.begins hgs hqs) heq
      have hpq : p = q := by
        obtain ⟨name, value⟩ := p
        obtain ⟨name', value'⟩ := q
        exact (Parameter.mk.injEq ..).mpr ⟨hname, hvalue⟩
      rw [hpq, ih hgs hps hqs hlines]

/-- The lines under tokens can be divided at their folds. -/
theorem Chooses.splitFold_eq (h : e.Chooses ps fs) (hn : ∀ p ∈ ps, isToken p.name = true) :
    splitFold ((Form.blocks ps fs).flatten.flatMap (fold ++ ·)) = ([], (Form.blocks ps fs).flatten) := by
  have hnames : ∀ p ∈ ps, ∀ c ∈ p.name, isVchar c = true :=
    fun p hp c hc => isVchar_of_isTokenChar (isTokenChar_of_mem (hn p hp) hc)
  have hnil : ¬ fold <:+: ([] : Text) := by decide
  apply splitFold_append_lines hnil
  intro line hl
  exact not_fold_infix fun c hc => h.writtenAs.1.classes_of_mem hnames hl hc

/-- **Distinct parameters have distinct encodings**, within whatever limits: under clear names, what is written behind a
value tells the parameters. -/
theorem parameters_eq_of_encode_eq (hn : ∀ p ∈ ps ++ ps', ClearName p.name) (h : e.encode value ps = .ok out)
    (h' : e'.encode value ps' = .ok out) : ps = ps' := by
  obtain ⟨fs, hfs, rfl⟩ := encode_eq_ok_iff.mp h
  obtain ⟨fs', hfs', heq⟩ := encode_eq_ok_iff.mp h'
  have hps : ∀ p ∈ ps, ClearName p.name := fun p hp => hn p (List.mem_append_left _ hp)
  have hps' : ∀ p ∈ ps', ClearName p.name := fun p hp => hn p (List.mem_append_right _ hp)
  have hsplit := congrArg splitFold (List.append_cancel_left heq)
  rw [hfs.splitFold_eq fun p hp => (hps p hp).isToken, hfs'.splitFold_eq fun p hp => (hps' p hp).isToken,
    Prod.mk.injEq] at hsplit
  exact hfs.eq_of_lines hfs' hps hps' hsplit.2

/-- The first line is percent-encoded under a name with a star in it, and the second one, which begins alike, has the
number zero. -/
theorem distinct_encodings_inner_star :
    let ps : List Parameter := [⟨"a*0".toList, ['é']⟩, ⟨['a'], ['€', '€']⟩]
    let ps' : List Parameter := List.zipWith (fun name value => ⟨name.toList, value.toList⟩) ["a*0", "a"] ["é", "€€"]
    let out := "v;\r\n a*0*=UTF-8''%C3%A9;\r\n a*0*=UTF-8''%E2%82%AC;\r\n a*1*=%E2%82%AC".toList
    (∀ p ∈ ps ++ ps', ClearName p.name) ∧ (Encoder.mk 24).encode ['v'] ps = .ok out ∧
      (Encoder.mk 23).encode ['v'] ps' = .ok out ∧ ps = ps' := by
  intro ps ps' out
  have hall : ((ps ++ ps').all fun p => isToken p.name && p.name.getLast? != some '*') = true := by decide
  have hn : ∀ p ∈ ps ++ ps', ClearName p.name := by
    intro p hp
    have hp := List.all_eq_true.mp hall p hp
    rw [Bool.and_eq_true, bne_iff_ne] at hp
    exact .of_getLast? hp.1 hp.2
  have h : (Encoder.mk 24).encode ['v'] ps = .ok out := by cbv
  have h' : (Encoder.mk 23).encode ['v'] ps' = .ok out := by cbv
  exact ⟨hn, h, h', parameters_eq_of_encode_eq hn h h'⟩

/-! ## Names that end in a star -/

/-- **A name with a star behind it can share its encoding with the name**: whatever is percent-encoded on one line under
a name is written alike for a token under the name with a star. -/
theorem encode_starred {name v : Text} (h : Form.choose e.maxLineLength ⟨name, v⟩ = .ok (.extended v)) (value : Text) :
    e.encode value [⟨name ++ ['*'], charsetMark ++ Percent.encode v⟩] = e.encode value [⟨name, v⟩] := by
  have hlines :
      (Form.token (charsetMark ++ Percent.encode v)).lines (name ++ ['*']) = (Form.extended v).lines name := by
    simp [Form.lines]
  have htoken : isToken (charsetMark ++ Percent.encode v) = true :=
    isToken_append (by decide) fun c hc => Percent.isTokenChar_of_mem_encode hc
  have hfits : (Form.token (charsetMark ++ Percent.encode v)).Fits e.maxLineLength (name ++ ['*']) := by
    unfold Form.Fits
    rw [hlines]
    exact (Form.writes_of_choose h).2
  rw [encode_cons_of_ok (Form.choose_of_token htoken hfits), encode_cons_of_ok h, Form.render, Form.render, hlines]

/-- Two parameters under different tokens, the one a token and the other percent-encoded, that are written alike. -/
theorem shared_encoding_of_starred_name :
    let ps : List Parameter := [⟨"a*".toList, "UTF-8''%C3%A9".toList⟩]
    let ps' : List Parameter := [⟨['a'], ['é']⟩]
    (∀ p ∈ ps ++ ps', isToken p.name = true) ∧ ps ≠ ps' ∧
      standard.encode ['x'] ps = .ok "x;\r\n a*=UTF-8''%C3%A9".toList ∧
      standard.encode ['x'] ps' = .ok "x;\r\n a*=UTF-8''%C3%A9".toList := by
  intro ps ps'
  have hchoose : Form.choose 78 ⟨['a'], ['é']⟩ = .ok (.extended ['é']) := by cbv
  have h' : standard.encode ['x'] ps' = .ok "x;\r\n a*=UTF-8''%C3%A9".toList := by cbv
  have hps : ps = [⟨['a'] ++ ['*'], charsetMark ++ Percent.encode ['é']⟩] := by decide
  refine ⟨by decide, by decide, ?_, h'⟩
  rw [hps]
  exact (encode_starred (e := standard) hchoose ['x']).trans h'

end Encoder

end FoldedHeader
