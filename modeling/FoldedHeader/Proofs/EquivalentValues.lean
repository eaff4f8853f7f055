import FoldedHeader.Proofs.IndependentParameters
import FoldedHeader.Proofs.NameLookup

/-!
# Equivalent header values

Two maps are equivalent just if one has the parameters of the other in some order (`ParameterMap.equiv_iff_perm`). The
order decides which parameter a lookup meets first, where the text of each parameter stands and at which parameter an
encoding ends, but no more than that: equivalent header values in which no two names are equal but for case answer every
lookup alike, and either both can be encoded, to the same texts in an order of their own, or neither can
(`HeaderValue.alike_of_equiv`).
-/

namespace FoldedHeader

/-- **Equivalent maps have the same parameters in some order.** -/
theorem ParameterMap.equiv_iff_perm {m₁ m₂ : ParameterMap} : m₁.equiv m₂ = true ↔ m₁.entries.Perm m₂.entries := by
  simp only [equiv, Bool.and_eq_true, beq_iff_eq, List.all_eq_true, get?_eq_some_iff]
  constructor
  · rintro ⟨hlen, hmem⟩
    have hnodup : m₁.entries.Nodup := List.Nodup.of_map _ m₁.nodup
    exact (List.subperm_of_subset hnodup hmem).perm_of_length_le hlen.ge
  · intro hp
    exact ⟨hp.length_eq, fun p hmem => hp.mem_iff.mp hmem⟩

namespace Encoder

/-- Each parameter, encoded alone, gives the text in its place. -/
def Alone (e : Encoder) (ps : List Parameter) (texts : List Text) : Prop :=
  List.Forall₂ (fun p text => e.encode [] [p] = .ok text) ps texts

variable {e : Encoder} {ps qs : List Parameter}

/-- **In another order the parameters are encoded as well**, each to the same text. -/
theorem exists_encode_of_perm {value out₁ : Text} (hp : ps.Perm qs) (h : e.encode value ps = .ok out₁) :
    ∃ out₂ texts₁ texts₂, e.encode value qs = .ok out₂ ∧ e.Alone ps texts₁ ∧ e.Alone qs texts₂ ∧
      texts₁.Perm texts₂ ∧ out₁ = value ++ texts₁.flatten ∧ out₂ = value ++ texts₂.flatten := by
  obtain ⟨texts₁, halone₁, hout₁⟩ := encode_eq_ok_iff_alone.mp h
  obtain ⟨texts₂, halone₂, hperm⟩ := List.perm_comp_forall₂ hp.symm halone₁
  exact ⟨_, texts₁, texts₂, encode_eq_ok_iff_alone.mpr ⟨texts₂, halone₂, rfl⟩, halone₁, halone₂, hperm.symm, hout₁, rfl⟩

end Encoder

namespace HeaderValue

variable {h₁ h₂ : HeaderValue}

theorem equiv_iff : h₁.equiv h₂ = true ↔ h₁.value = h₂.value ∧
    h₁.parameters.entries.Perm h₂.parameters.entries ∧ h₁.ignored = h₂.ignored ∧ h₁.errorIndex = h₂.errorIndex := by
  simp only [equiv, Bool.and_eq_true, beq_iff_eq, ParameterMap.equiv_iff_perm, and_assoc]

/-- **Equivalent header values behave alike.** If no two names are equal but for case, lookups and tests agree; and with
any encoder, either both values can be encoded, to the value itself and the same texts for the parameters in some
order, or neither can. -/
theorem alike_of_equiv (he : h₁.equiv h₂ = true) (hd : h₁.parameters.CaseDistinct) :
    (∀ name, h₁.getParameter? name = h₂.getParameter? name ∧ h₁.hasParameter name = h₂.hasParameter name) ∧
    h₁.isClean = h₂.isClean ∧ h₁.isConsistent = h₂.isConsistent ∧
    ∀ e : Encoder,
      (∃ out₁ out₂ texts₁ texts₂, h₁.encode e = .ok out₁ ∧ h₂.encode e = .ok out₂ ∧ out₁.length = out₂.length ∧
        e.Alone h₁.parameters.entries texts₁ ∧ e.Alone h₂.parameters.entries texts₂ ∧ texts₁.Perm texts₂ ∧
        out₁ = h₁.value ++ texts₁.flatten ∧ out₂ = h₁.value ++ texts₂.flatten) ∨
      ∃ err₁ err₂, h₁.encode e = .error err₁ ∧ h₂.encode e = .error err₂ := by
  obtain ⟨hvalue, hperm, hignored, hindex⟩ := equiv_iff.mp he
  refine ⟨fun name => ?_, ?_, ?_, fun e => ?_⟩
  · have hget := getParameter?_eq_of_perm hd hperm name
    exact ⟨hget, by rw [hasParameter, hasParameter, hget]⟩
  · rw [isClean, isClean, hignored, hindex]
  · rw [isConsistent, isConsistent, hignored, hindex]
  · rw [encode, encode, ← hvalue]
    cases henc₁ : e.encode h₁.value h₁.parameters.entries with
    | ok out₁ =>
      obtain ⟨out₂, texts₁, texts₂, henc₂, halone₁, halone₂, htexts, hout₁, hout₂⟩ :=
        Encoder.exists_encode_of_perm hperm henc₁
      have hlen : out₁.length = out₂.length := by
        rw [hout₁, hout₂, List.length_append, List.length_append, htexts.flatten.length_eq]
      exact Or.inl ⟨out₁, out₂, texts₁, texts₂, rfl, henc₂, hlen, halone₁, halone₂, htexts, hout₁, hout₂⟩
    | error err₁ =>
      cases henc₂ : e.encode h₁.value h₂.parameters.entries with
      | ok out₂ =>
        obtain ⟨out, _, _, hout, _⟩ := Encoder.exists_encode_of_perm hperm.symm henc₂
        rw [hout] at henc₁
        cases henc₁
      | error err₂ => exact Or.inr ⟨err₁, err₂, rfl, rfl⟩

/-- The same three parameters in two orders, a token, a quoted-string and a percent-encoded value. -/
theorem alike_of_reordered :
    let h₁ : HeaderValue := ⟨['v'], ⟨[⟨['a'], ['x']⟩, ⟨['b'], [' ']⟩, ⟨['c'], ['é']⟩], by decide⟩, [], none⟩
    let h₂ : HeaderValue := ⟨['v'], ⟨[⟨['c'], ['é']⟩, ⟨['a'], ['x']⟩, ⟨['b'], [' ']⟩], by decide⟩, [], none⟩
    let out₁ : Text := "v;\r\n a=x;\r\n b=\" \";\r\n c*=UTF-8''%C3%A9".toList
    let out₂ : Text := "v;\r\n c*=UTF-8''%C3%A9;\r\n a=x;\r\n b=\" \"".toList
    h₁.equiv h₂ = true ∧ h₁.parameters.CaseDistinct ∧ h₁.getParameter? ['C'] = h₂.getParameter? ['C'] ∧
      h₁.encode .standard = .ok out₁ ∧ h₂.encode .standard = .ok out₂ ∧
      ∃ texts₁ texts₂ : List Text, texts₁.Perm texts₂ ∧ out₁ = ['v'] ++ texts₁.flatten ∧ out₂ = ['v'] ++ texts₂.flatten := by
  intro h₁ h₂ out₁ out₂
  have he : h₁.equiv h₂ = true := by decide
  have hd : h₁.parameters.CaseDistinct := by decide
  have henc₁ : h₁.encode .standard = .ok out₁ := by cbv
  have henc₂ : h₂.encode .standard = .ok out₂ := by cbv
  obtain ⟨hget, _, _, henc⟩ := alike_of_equiv he hd
  refine ⟨he, hd, (hget ['C']).1, henc₁, henc₂, ?_⟩
  rcases henc .standard with ⟨_, _, texts₁, texts₂, ho₁, ho₂, _, _, _, htexts, hout₁, hout₂⟩ | ⟨_, _, herr, _⟩
  · obtain rfl := Except.ok.inj (henc₁.symm.trans ho₁)
    obtain rfl := Except.ok.inj (henc₂.symm.trans ho₂)
    exact ⟨texts₁, texts₂, htexts, hout₁, hout₂⟩
  · rw [henc₁] at herr
    cases herr

/-- If neither can be encoded, the errors may tell of different parameters. -/
example :
    let h₁ : HeaderValue := ⟨['v'], ⟨[⟨['b'], [' ']⟩, ⟨['c'], ['é']⟩], by decide⟩, [], none⟩
    let h₂ : HeaderValue := ⟨['v'], ⟨[⟨['c'], ['é']⟩, ⟨['b'], [' ']⟩], by decide⟩, [], none⟩
    h₁.equiv h₂ = true ∧ h₁.encode ⟨6⟩ = .error (.nameTooLong ['b'] 6) ∧
      h₂.encode ⟨6⟩ = .error (.nameTooLong ['c'] 6) := by
  intro h₁ h₂
  exact ⟨by decide, by cbv, by cbv⟩

end HeaderValue

end FoldedHeader
