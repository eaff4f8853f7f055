import FoldedHeader.Proofs.ChosenForms
import FoldedHeader.Proofs.EscapedText

/-!
# Lengths in code units

A plainer way to write a parameter is to ask of each form only whether it is open to the value and fits, with no look at
the length or the characters beforehand, and to count lengths in UTF-16 code units (`appendByUnits`). Under names in
ASCII it comes to the same (`Encoder.encode_eq_appendByUnits`, `Encoder.encode_eq_foldlM`): a token and a quoted-string
have ASCII only, where each character is one unit (`unitLength_eq_length`), and a value that has anything else is
percent-encoded either way.
-/

namespace FoldedHeader

/-- The UTF-16 code units of a character: those beyond the first 65536 take a surrogate pair. -/
def codeUnits (c : Char) : Nat := if c.toNat < 65536 then 1 else 2

/-- The length of a text in UTF-16 code units. -/
def unitLength (s : Text) : Nat := (s.map codeUnits).sum

/-- All of its characters are ASCII. -/
def IsAscii (s : Text) : Prop := ∀ c ∈ s, c.toNat < 128

instance (s : Text) : Decidable (IsAscii s) := List.decidableBAll (fun c : Char => c.toNat < 128) s

variable {s : Text} {p : Parameter} {max : Nat}

theorem codeUnits_of_ascii {c : Char} (h : c.toNat < 128) : codeUnits c = 1 := by
  rw [codeUnits, if_pos]
  omega

/-- Code units are counted like characters in ASCII. -/
theorem unitLength_eq_length (h : IsAscii s) : unitLength s = s.length := by
  induction s with
  | nil => rfl
  | cons c s ih =>
    have hs := ih fun d hd => h d (List.mem_cons_of_mem c hd)
    rw [unitLength] at hs ⊢
    rw [List.map_cons, List.sum_cons, hs, codeUnits_of_ascii (h c List.mem_cons_self), List.length_cons, Nat.add_comm]

theorem isAscii_of_isToken (h : isToken s = true) : IsAscii s := by
  intro c hc
  exact toNat_lt_of_isVchar (isVchar_of_isTokenChar (isTokenChar_of_mem h hc))

theorem QuotedString.isAscii_of_quote {name q : Text} (h : quote name s = .ok q) : IsAscii q := by
  obtain ⟨t, ht, rfl⟩ := body_of_quote h
  intro c hc
  rw [List.mem_append, List.mem_cons, List.mem_singleton] at hc
  rcases hc with (rfl | hc) | rfl
  · decide
  · rcases ht.classes hc with hw | hv
    · exact toNat_lt_of_isWsp hw
    · exact toNat_lt_of_isVchar hv
  · decide

/-! ## Without a look beforehand -/

/-- Write a parameter percent-encoded behind the text `out`. -/
def appendExtended (max : Nat) (out : Text) (p : Parameter) : Except EncodeError Text :=
  (Form.chooseExtended max p).map fun f => out ++ f.render p.name

/-- Write a parameter behind the text `out`: as it is if it is a token and fits, else as a quoted-string if there is one
and it fits, else percent-encoded. Lengths are in code units; the fold space, the equals sign and the semicolon make
three. -/
def appendByUnits (max : Nat) (out : Text) (p : Parameter) : Except EncodeError Text :=
  if isToken p.value = true ∧ unitLength p.name + 3 + unitLength p.value ≤ max then
    .ok (out ++ fold ++ p.name ++ ['='] ++ p.value)
  else
    match QuotedString.quote p.name p.value with
    | .ok q =>
      if unitLength p.name + 3 + unitLength q ≤ max then .ok (out ++ fold ++ p.name ++ ['='] ++ q)
      else appendExtended max out p
    | .error _ => appendExtended max out p

namespace Form

/-- In ASCII the columns of an assignment are the same in code units. -/
theorem assignmentWidth_add_eq {name : Text} (hn : IsAscii name) (hs : IsAscii s) :
    assignmentWidth name + s.length = unitLength name + 3 + unitLength s := by
  rw [unitLength_eq_length hn, unitLength_eq_length hs, assignmentWidth]
  omega

theorem fits_token_iff_units (hn : IsAscii p.name) (hv : isToken p.value = true) :
    (token p.value).Fits max p.name ↔ unitLength p.name + 3 + unitLength p.value ≤ max := by
  rw [fits_token_iff, assignmentWidth_add_eq hn (isAscii_of_isToken hv)]

theorem fits_quoted_iff_units (hn : IsAscii p.name) {q : Text} (hq : QuotedString.quote p.name p.value = .ok q) :
    (quoted q).Fits max p.name ↔ unitLength p.name + 3 + unitLength q ≤ max := by
  rw [fits_quoted_iff, assignmentWidth_add_eq hn (QuotedString.isAscii_of_quote hq)]

end Form

/-- **Looking beforehand changes nothing**, and neither does counting in code units. -/
theorem appendByUnits_eq (hn : IsAscii p.name) (max : Nat) (out : Text) :
    appendByUnits max out p = (Form.choose max p).map fun f => out ++ f.render p.name := by
  unfold appendByUnits
  by_cases ht : isToken p.value = true ∧ (Form.token p.value).Fits max p.name
  · rw [if_pos ⟨ht.1, (Form.fits_token_iff_units hn ht.1).mp ht.2⟩, Form.choose_of_token ht.1 ht.2]
    simp [Except.map, Form.render, Form.lines]
  · have ht' : isToken p.value = true → ¬ (Form.token p.value).Fits max p.name := fun hv hf => ht ⟨hv, hf⟩
    rw [if_neg fun h => ht ⟨h.1, (Form.fits_token_iff_units hn h.1).mpr h.2⟩]
    cases hq : QuotedString.quote p.name p.value with
    | ok q =>
      by_cases hf : (Form.quoted q).Fits max p.name
      · rw [Form.choose_of_quoted ht' hq hf]
        simp [(Form.fits_quoted_iff_units hn hq).mp hf, Except.map, Form.render, Form.lines]
      · have hnone : ∀ q', QuotedString.quote p.name p.value = .ok q' → ¬ (Form.quoted q').Fits max p.name := by
          intro q' hq'
          rw [hq, Except.ok.injEq] at hq'
          exact hq' ▸ hf
        rw [Form.choose_of_not_plain ht' hnone]
        simp [(Form.fits_quoted_iff_units hn hq).not.mp hf, appendExtended]
    | error err =>
      have hnone : ∀ q', QuotedString.quote p.name p.value = .ok q' → ¬ (Form.quoted q').Fits max p.name := by
        intro q' hq'
        rw [hq] at hq'
        cases hq'
      rw [Form.choose_of_not_plain ht' hnone]
      rfl

namespace Encoder

/-- **A parameter is written as without a look beforehand**, or fails with the same error. -/
theorem encode_eq_appendByUnits (hn : IsAscii p.name) (e : Encoder) (out : Text) :
    e.encode out [p] = appendByUnits e.maxLineLength out p := by
  rw [encode_singleton, appendByUnits_eq hn]

/-- A quoted-string that just fits, and a value of two characters and three units that is percent-encoded. -/
theorem appendByUnits_at_limit :
    IsAscii ['n'] ∧
    (Encoder.mk 10).encode ['v'] [⟨['n'], ['a', '"', 'b']⟩] = appendByUnits 10 ['v'] ⟨['n'], ['a', '"', 'b']⟩ ∧
    appendByUnits 10 ['v'] ⟨['n'], ['a', '"', 'b']⟩ = .ok "v;\r\n n=\"a\\\"b\"".toList ∧
    (Encoder.mk 27).encode ['v'] [⟨['n'], ['"', '😀']⟩] = appendByUnits 27 ['v'] ⟨['n'], ['"', '😀']⟩ ∧
    appendByUnits 27 ['v'] ⟨['n'], ['"', '😀']⟩ = .ok "v;\r\n n*=UTF-8''%22%F0%9F%98%80".toList := by
  have hn : IsAscii ['n'] := by decide
  exact ⟨hn, encode_eq_appendByUnits (p := ⟨['n'], ['a', '"', 'b']⟩) hn ⟨10⟩ ['v'], by cbv,
    encode_eq_appendByUnits (p := ⟨['n'], ['"', '😀']⟩) hn ⟨27⟩ ['v'], by cbv⟩

/-- A name beyond ASCII can be too long in code units only. -/
example : (Encoder.mk 5).encode ['v'] [⟨['😀'], ['x']⟩] = .ok "v;\r\n 😀=x".toList ∧
    appendByUnits 5 ['v'] ⟨['😀'], ['x']⟩ = .error (.nameTooLong ['😀'] 5) := by
  constructor <;> cbv

/-- The same holds of all parameters, one behind the other. -/
theorem encode_eq_foldlM {ps : List Parameter} (hn : ∀ p ∈ ps, IsAscii p.name) (e : Encoder) (out : Text) :
    e.encode out ps = ps.foldlM (appendByUnits e.maxLineLength) out := by
  induction ps generalizing out with
  | nil => rfl
  | cons p ps ih =>
    have hps : (fun out => e.encode out ps) = fun out => ps.foldlM (appendByUnits e.maxLineLength) out :=
      funext (ih fun q hq => hn q (List.mem_cons_of_mem p hq))
    rw [encode_cons, encode_singleton, ← appendByUnits_eq (hn p List.mem_cons_self), hps, List.foldlM_cons]

end Encoder

end FoldedHeader
