import FoldedHeader.Proofs.ExtendedLength
import FoldedHeader.Proofs.QuotableValues
import FoldedHeader.Proofs.WordWriter

/-!
# Encoding with lengths in words

The encoder with all its lengths in words: those of names and values, of a quoted-string and a percent-encoded value
before they are written (`quotedLength`, `encodedLength`), and of the lines that are compared with the limit
(`append`, `appendExtended`). The texts it writes, the events it tells and the errors it gives are those of the encoder;
only the arithmetic wraps around.

It makes no difference (`report_exact`) as long as the characters of each name and three times the bytes of its value
leave 64 to the largest word, since no line that is measured is longer than a name, the encoded value and what stands
around them (`Percent.encodedLength_le_size`).
-/

namespace FoldedHeader

/-- A text has no more characters than bytes. -/
theorem length_le_size_utf8Encode (s : Text) : s.length ≤ s.utf8Encode.size := by
  induction s with
  | nil => exact Nat.zero_le _
  | cons c s ih =>
    have := c.utf8Size_pos
    rw [size_utf8Encode_cons, List.length_cons]
    omega

/-- Percent-encoding at most trebles the bytes of a text. -/
theorem Percent.encodedLength_le_size (s : Text) : encodedLength s ≤ 3 * s.utf8Encode.size := by
  induction s with
  | nil => exact Nat.zero_le _
  | cons c s ih =>
    have hc : charWidth c ≤ 3 * c.utf8Size := by
      have := c.utf8Size_pos
      unfold charWidth
      split <;> omega
    rw [encodedLength_cons, size_utf8Encode_cons]
    omega

theorem Percent.encodedLength_eq_sum (s : Text) : encodedLength s = (s.map charWidth).sum := by
  induction s with
  | nil => rfl
  | cons c s ih => rw [encodedLength_cons, ih, List.map_cons, List.sum_cons]

namespace Word

/-! ## Lengths told in advance -/

/-- The columns of a character in a percent-encoded value. -/
def charWidth (c : Char) : Computation UInt64 :=
  if isAttributeChar c then pure 1 else mul (.ofNat c.utf8Size) 3

/-- The columns of a percent-encoded value. -/
def encodedLength (s : Text) : Computation UInt64 := sumFrom charWidth 0 s

/-- The columns of a character between quotes. -/
def escapedWidth (name : Text) (c : Char) : Computation UInt64 :=
  if isQtext c || isWsp c then pure 1
  else if isVchar c then pure 2
  else lift (.error (.unencodableCharacter name c))

/-- The columns of a value between quotes, the quotes included. -/
def quotedLength (name s : Text) : Computation UInt64 := sumFrom (escapedWidth name) 2 s

theorem gives_charWidth (c : Char) : (charWidth c).Gives (.ok (.ofNat (Percent.charWidth c))) := by
  have := c.utf8Size_le_four
  unfold charWidth Percent.charWidth
  split
  · exact gives_pure _
  · rw [Nat.mul_comm]
    exact gives_mul (n := 3) (by omega) (by decide) (by omega)

theorem gives_encodedLength {s : Text} (h : Percent.encodedLength s < 2 ^ 64) :
    (encodedLength s).Gives (.ok (.ofNat (Percent.encodedLength s))) := by
  rw [Percent.encodedLength_eq_sum, ← Nat.zero_add (List.sum _)] at h ⊢
  exact gives_sumFrom Percent.charWidth (fun c _ => gives_charWidth c) h

/-- A character of a quotable value takes one column between quotes, and another if it is escaped. -/
theorem gives_escapedWidth (name : Text) {c : Char} (h : isWsp c = true ∨ isVchar c = true) :
    (escapedWidth name c).Gives (.ok (.ofNat (QuotedString.escapeChar c).length)) := by
  have hiff := QuotedString.isQtext_or_isWsp_iff h
  unfold escapedWidth QuotedString.escapeChar
  by_cases hc : c = '"' ∨ c = '\\'
  · have hq : ¬ (isQtext c || isWsp c) = true := by
      rw [Bool.or_eq_true, hiff]
      exact not_not_intro hc
    rw [if_neg hq, if_pos (QuotedString.isVchar_of_escaped hc), if_pos hc]
    exact gives_pure _
  · have hq : (isQtext c || isWsp c) = true := by
      rw [Bool.or_eq_true, hiff]
      exact hc
    rw [if_pos hq, if_neg hc]
    exact gives_pure _

theorem gives_quotedLength {name s q : Text} (hq : QuotedString.quote name s = .ok q) (h : q.length < 2 ^ 64) :
    (quotedLength name s).Gives (.ok (.ofNat q.length)) := by
  obtain ⟨hs, rfl⟩ := QuotedString.quote_eq_ok_iff_isQuotable.mp hq
  have hlen : ('"' :: s.flatMap QuotedString.escapeChar ++ ['"']).length =
      2 + (s.map fun c => (QuotedString.escapeChar c).length).sum := by
    rw [List.length_append, List.length_cons, List.length_flatMap, List.length_singleton]
    omega
  have hc : ∀ c ∈ s, isWsp c = true ∨ isVchar c = true := by simpa [isQuotable] using hs
  rw [hlen] at h ⊢
  exact gives_sumFrom _ (fun c hm => gives_escapedWidth name (hc c hm)) h

/-! ## Parameters -/

/-- Write a parameter percent-encoded behind the text `out`, and tell the number of its lines. -/
def appendExtended (max : UInt64) (out : Text) (p : Parameter) : Computation (Text × UInt64) := do
  let nameLength ← count p.name
  let length ← encodedLength p.value
  let width ← addAll 1 [nameLength, 1, 1, .ofNat charsetMark.length, length, 1]
  if width ≤ max then pure (out ++ (Form.extended p.value).render p.name, 1)
  else appendContinued max nameLength out p

/-- Write a parameter percent-encoded, with the event that tells so. -/
def tellExtended (max : UInt64) (out : Text) (p : Parameter) : Computation (Text × Event) := do
  let (text, lines) ← appendExtended max out p
  pure (text, .extended p.name lines.toNat)

/-- Write a parameter in the form chosen for it behind the text `out`, with the event that tells so. -/
def append (max : UInt64) (out : Text) (p : Parameter) : Computation (Text × Event) := do
  let nameLength ← count p.name
  let fixed ← addAll 1 [nameLength, 1, 1]
  let length ← count p.value
  let plain ← add fixed length
  let quotedLeast ← addAll fixed [length, 2]
  if decide (plain ≤ max) && isToken p.value then
    pure (out ++ (Form.token p.value).render p.name, .token p.name)
  else if decide (quotedLeast ≤ max) && isQuotable p.value then do
    let length ← quotedLength p.name p.value
    let width ← add fixed length
    if width ≤ max then do
      let text ← lift (QuotedString.quote p.name p.value)
      pure (out ++ (Form.quoted text).render p.name, .quoted p.name)
    else tellExtended max out p
  else tellExtended max out p

/-- Write the parameters behind the text `out`, until one fails; and all the operations made. -/
def report (max : UInt64) (out : Text) : List Parameter → Report × List Operation
  | [] => (⟨[], .ok out⟩, [])
  | p :: ps =>
    let c := append max out p
    match c.result with
    | .ok (text, event) =>
      let (r, operations) := report max text ps
      (⟨event :: r.events, r.result⟩, c.operations ++ operations)
    | .error err => (⟨err.event?.toList, .error err⟩, c.operations)

variable {max : UInt64} {out : Text} {p : Parameter}

theorem gives_appendExtended (h : p.name.length + 3 * p.value.utf8Encode.size ≤ 2 ^ 64 - 64) :
    (appendExtended max out p).Gives ((Form.chooseExtended max.toNat p).map fun f =>
      (out ++ f.render p.name, .ofNat (f.lines p.name).length)) := by
  have hlen := length_le_size_utf8Encode p.value
  have henc := Percent.encodedLength_le_size p.value
  have hmark : charsetMark.length = 7 := by decide
  have hwidth : 1 + [p.name.length, 1, 1, charsetMark.length, Percent.encodedLength p.value, 1].sum =
      Form.extendedWidth p := by
    simp only [Form.extendedWidth, List.sum_cons, List.sum_nil]
    omega
  have hlt : Form.extendedWidth p < 2 ^ 64 := by
    rw [Form.extendedWidth]
    omega
  unfold appendExtended
  refine (gives_count (by omega)).bind <| (gives_encodedLength (by omega)).bind ?_
  have hsum := gives_addAll 1 [p.name.length, 1, 1, charsetMark.length, Percent.encodedLength p.value, 1] (hwidth ▸ hlt)
  rw [hwidth] at hsum
  refine hsum.bind ?_
  unfold Form.chooseExtended
  by_cases hle : Form.extendedWidth p ≤ max.toNat
  · rw [if_pos ((ofNat_le_iff hlt).mpr hle), if_pos hle]
    exact gives_pure _
  · rw [if_neg ((ofNat_le_iff hlt).not.mpr hle), if_neg hle]
    have hcont : (appendContinued max (.ofNat p.name.length) out p).Gives _ :=
      gives_appendContinued (by omega) (by omega)
    cases hf : (Continuation.rule max.toNat p.name).fill p.value with
    | none =>
      rw [hf] at hcont
      exact hcont
    | some pieces =>
      rw [hf] at hcont
      show (appendContinued max (.ofNat p.name.length) out p).Gives
        (.ok (out ++ (Form.continued pieces).render p.name, .ofNat ((Form.continued pieces).lines p.name).length))
      rw [Form.length_lines_continued]
      exact hcont

theorem gives_tellExtended (h : p.name.length + 3 * p.value.utf8Encode.size ≤ 2 ^ 64 - 64) :
    (tellExtended max out p).Gives ((Form.chooseExtended max.toNat p).map fun f =>
      (out ++ f.render p.name, f.event p.name)) := by
  have hext : (appendExtended max out p).Gives _ := gives_appendExtended h
  unfold tellExtended
  rcases Form.chooseExtended_cases max.toNat p with ⟨_, he⟩ | ⟨_, ⟨pieces, hfill, he⟩ | he⟩
  · rw [he] at hext ⊢
    exact hext.bind (gives_pure _)
  · rw [he] at hext ⊢
    have hlines : (UInt64.ofNat ((Form.continued pieces).lines p.name).length).toNat = pieces.length := by
      have hle := Continuation.Writer.length_fill_le hfill
      have hlen := length_le_size_utf8Encode p.value
      rw [Form.length_lines_continued]
      exact toNat_ofNat (by omega)
    have hevent : (Form.continued pieces).event p.name =
      .extended p.name (UInt64.ofNat ((Form.continued pieces).lines p.name).length).toNat := by rw [hlines]; rfl
    rw [Except.map, hevent]
    exact hext.bind (gives_pure _)
  · rw [he] at hext ⊢
    exact hext.bind_error

/-- **A parameter is written in words as with numbers.** -/
theorem gives_append (h : p.name.length + 3 * p.value.utf8Encode.size ≤ 2 ^ 64 - 64) :
    (append max out p).Gives ((Form.choose max.toNat p).map fun f => (out ++ f.render p.name, f.event p.name)) := by
  have hlen := length_le_size_utf8Encode p.value
  have hfixed : 1 + [p.name.length, 1, 1].sum = Form.assignmentWidth p.name := by
    simp only [Form.assignmentWidth, List.sum_cons, List.sum_nil]
    omega
  have hleast : Form.assignmentWidth p.name + [p.value.length, 2].sum =
      Form.assignmentWidth p.name + p.value.length + 2 := by
    simp only [List.sum_cons, List.sum_nil]
    omega
  have hlt : Form.assignmentWidth p.name + 2 * p.value.length + 2 < 2 ^ 64 := by
    rw [Form.assignmentWidth]
    omega
  have hsum := gives_addAll 1 [p.name.length, 1, 1] (by omega)
  have hsum' := gives_addAll (Form.assignmentWidth p.name) [p.value.length, 2] (by omega)
  have htell : (tellExtended max out p).Gives _ := gives_tellExtended h
  rw [hfixed] at hsum
  rw [hleast] at hsum'
  unfold append
  refine (gives_count (by omega)).bind <| hsum.bind <| (gives_count (by omega)).bind <| (gives_add (by omega)).bind <|
    hsum'.bind ?_
  have hfits : ∀ {n : Nat}, n < 2 ^ 64 → decide (UInt64.ofNat n ≤ max) = decide (n ≤ max.toNat) :=
    fun hn => decide_eq_decide.mpr (ofNat_le_iff hn)
  rw [hfits (by omega), hfits (by omega)]
  simp only [Bool.and_eq_true, decide_eq_true_eq]
  by_cases ht : Form.assignmentWidth p.name + p.value.length ≤ max.toNat ∧ isToken p.value = true
  · rw [if_pos ht, Form.choose_of_token ht.2 (Form.fits_token_iff.mpr ht.1)]
    exact gives_pure _
  have ht' : isToken p.value = true → ¬ (Form.token p.value).Fits max.toNat p.name :=
    fun hv hf => ht ⟨Form.fits_token_iff.mp hf, hv⟩
  rw [if_neg ht]
  by_cases hq : Form.assignmentWidth p.name + p.value.length + 2 ≤ max.toNat ∧ isQuotable p.value = true
  · rw [if_pos hq]
    obtain ⟨text, hquote, _⟩ := QuotedString.exists_quote p.name hq.2
    have hdouble := (QuotedString.quotedLength_of_quote hquote).2.2
    refine (gives_quotedLength hquote (by omega)).bind <| (gives_add (by omega)).bind ?_
    by_cases hf : Form.assignmentWidth p.name + text.length ≤ max.toNat
    · rw [if_pos ((ofNat_le_iff (by omega)).mpr hf), Form.choose_of_quoted ht' hquote (Form.fits_quoted_iff.mpr hf),
        hquote]
      exact (gives_lift _).bind (gives_pure _)
    · rw [if_neg ((ofNat_le_iff (by omega)).not.mpr hf), Form.choose_of_not_plain ht']
      · exact htell
      · intro text' hquote'
        rw [hquote] at hquote'
        cases hquote'
        exact fun hfits => hf (Form.fits_quoted_iff.mp hfits)
  · rw [if_neg hq, Form.choose_of_not_plain ht']
    · exact htell
    · intro text hquote hf
      obtain ⟨hv, hle⟩ := QuotedString.isQuotable_of_quote hquote
      have hwidth := Form.fits_quoted_iff.mp hf
      exact hq ⟨by omega, hv⟩

/-! ## A whole header value -/

theorem report_cons_of_ok {text : Text} {event : Event} (h : (append max out p).result = .ok (text, event))
    (ps : List Parameter) : report max out (p :: ps) =
      (⟨event :: (report max text ps).1.events, (report max text ps).1.result⟩,
        (append max out p).operations ++ (report max text ps).2) := by
  simp only [report, h]

theorem report_cons_of_error {err : EncodeError} (h : (append max out p).result = .error err) (ps : List Parameter) :
    report max out (p :: ps) = (⟨err.event?.toList, .error err⟩, (append max out p).operations) := by
  simp only [report, h]

/-- **Counting in words is exact.** Let the characters of each name and three times the bytes of its value leave 64 to
the largest word. Then, under any limit that is a word, what an encoder with wrapping arithmetic gives and tells is what
the encoder gives and tells, and no sum, difference or product that it forms on the way leaves the range of a word. -/
theorem report_exact (max : UInt64) (value : Text) (ps : List Parameter)
    (h : ∀ p ∈ ps, p.name.length + 3 * p.value.utf8Encode.size ≤ 2 ^ 64 - 64) :
    (report max value ps).1 = (Encoder.mk max.toNat).report value ps ∧
    (report max value ps).1.result = (Encoder.mk max.toNat).encode value ps ∧
    ∀ o ∈ (report max value ps).2, o.InRange := by
  suffices hs : (report max value ps).1 = (Encoder.mk max.toNat).report value ps ∧
      ∀ o ∈ (report max value ps).2, o.InRange from ⟨hs.1, congrArg Report.result hs.1, hs.2⟩
  induction ps generalizing value with
  | nil => exact ⟨rfl, nofun⟩
  | cons p ps ih =>
    obtain ⟨hresult, hrange⟩ : (append max value p).Gives _ := gives_append (h p List.mem_cons_self)
    cases hc : Form.choose max.toNat p with
    | error err =>
      rw [hc] at hresult
      rw [report_cons_of_error hresult, Encoder.report, hc]
      exact ⟨rfl, hrange⟩
    | ok f =>
      rw [hc] at hresult
      obtain ⟨hreport, hrest⟩ := ih (value ++ f.render p.name) fun q hq => h q (List.mem_cons_of_mem p hq)
      rw [report_cons_of_ok hresult, Encoder.report, hc, hreport]
      refine ⟨rfl, fun o ho => ?_⟩
      rcases List.mem_append.mp ho with ho | ho
      · exact hrange o ho
      · exact hrest o ho

/-- A quoted-string, and two characters of nine columns behind an empty line 0. -/
theorem report_exact_every_count :
    (∀ p ∈ [(⟨['q'], ['a', '"']⟩ : Parameter), ⟨['n'], ['€', '€']⟩],
      p.name.length + 3 * p.value.utf8Encode.size ≤ 2 ^ 64 - 64) ∧
    (report 17 ['x'] [⟨['q'], ['a', '"']⟩, ⟨['n'], ['€', '€']⟩]).1 =
      ⟨[.quoted ['q'], .extended ['n'] 3],
        .ok "x;\r\n q=\"a\\\"\";\r\n n*0*=UTF-8'';\r\n n*1*=%E2%82%AC;\r\n n*2*=%E2%82%AC".toList⟩ ∧
    ∀ o ∈ (report 17 ['x'] [⟨['q'], ['a', '"']⟩, ⟨['n'], ['€', '€']⟩]).2, o.InRange := by
  have h : ∀ p ∈ [(⟨['q'], ['a', '"']⟩ : Parameter), ⟨['n'], ['€', '€']⟩],
      p.name.length + 3 * p.value.utf8Encode.size ≤ 2 ^ 64 - 64 := by decide
  obtain ⟨hreport, _, hrange⟩ := report_exact 17 ['x'] _ h
  exact ⟨h, hreport.trans (by cbv), hrange⟩

end Word

end FoldedHeader
