import Mathlib.Data.List.Nodup
import Mathlib.Data.List.Pairwise
import FoldedHeader.HeaderValue

/-!
# Looking parameters up by name

A lookup answers with the first parameter of the name asked for. Where at most one parameter can answer, it asks only
which parameters there are: for exact names this holds of every map (`ParameterMap.get?_eq_some_iff`), and for names
without regard to ASCII case it holds of a map in which no two names are equal but for case
(`ParameterMap.CaseDistinct`, `HeaderValue.getParameter?_eq_some_iff`). The order of the parameters then does not matter
(`HeaderValue.getParameter?_eq_of_perm`).
-/

namespace FoldedHeader

/-- Where at most one element can answer, the first that does is the one that does. -/
theorem find?_eq_some_iff_of_unique {α : Type} {l : List α} {P : α → Bool}
    (hu : ∀ a ∈ l, ∀ b ∈ l, P a = true → P b = true → a = b) {a : α} : l.find? P = some a ↔ a ∈ l ∧ P a = true := by
  constructor
  · intro h
    exact ⟨List.mem_of_find?_eq_some h, List.find?_some h⟩
  · rintro ⟨ha, hP⟩
    obtain ⟨b, hb⟩ := Option.isSome_iff_exists.mp (List.find?_isSome.mpr ⟨a, ha, hP⟩)
    rw [hb, hu a ha b (List.mem_of_find?_eq_some hb) hP (List.find?_some hb)]

theorem eqIgnoringCase_iff {s t : Text} : eqIgnoringCase s t = true ↔ s.map Char.toLower = t.map Char.toLower := by
  rw [eqIgnoringCase, beq_iff_eq]

theorem eqIgnoringCase_comm (s t : Text) : eqIgnoringCase s t = eqIgnoringCase t s := by
  rw [Bool.eq_iff_iff, eqIgnoringCase_iff, eqIgnoringCase_iff, eq_comm]

/-- Two names that are equal to a third but for case are so to each other. -/
theorem eqIgnoringCase_of_both {s t u : Text} (hs : eqIgnoringCase s u = true) (ht : eqIgnoringCase t u = true) :
    eqIgnoringCase s t = true := by
  rw [eqIgnoringCase_iff] at hs ht ⊢
  rw [hs, ht]

namespace ParameterMap

variable {m m₁ m₂ : ParameterMap} {p q : Parameter}

/-! ## Exact names -/

theorem eq_of_name_eq (hp : p ∈ m.entries) (hq : q ∈ m.entries) (h : p.name = q.name) : p = q :=
  List.inj_on_of_nodup_map m.nodup hp hq h

theorem get?_eq_some_iff {name value : Text} : m.get? name = some value ↔ ⟨name, value⟩ ∈ m.entries := by
  have hu : ∀ p ∈ m.entries, ∀ q ∈ m.entries, (p.name == name) = true → (q.name == name) = true → p = q := by
    intro p hp q hq hpn hqn
    rw [beq_iff_eq] at hpn hqn
    exact eq_of_name_eq hp hq (hpn.trans hqn.symm)
  simp only [get?, Option.map_eq_some_iff, find?_eq_some_iff_of_unique hu, beq_iff_eq]
  constructor
  · rintro ⟨p, ⟨hp, rfl⟩, rfl⟩
    exact hp
  · intro h
    exact ⟨_, ⟨h, rfl⟩, rfl⟩

/-! ## Names without regard to case -/

/-- No two names are equal but for ASCII case. -/
def CaseDistinct (m : ParameterMap) : Prop := m.entries.Pairwise fun p q => eqIgnoringCase p.name q.name = false

instance (m : ParameterMap) : Decidable m.CaseDistinct :=
  inferInstanceAs (Decidable (m.entries.Pairwise fun p q => eqIgnoringCase p.name q.name = false))

theorem CaseDistinct.of_perm (h : m₁.CaseDistinct) (hp : m₁.entries.Perm m₂.entries) : m₂.CaseDistinct := by
  refine (hp.pairwise_iff fun {p q} hpq => ?_).mp h
  rwa [eqIgnoringCase_comm]

theorem CaseDistinct.eq_of_eqIgnoringCase (h : m.CaseDistinct) (hp : p ∈ m.entries) (hq : q ∈ m.entries)
    (he : eqIgnoringCase p.name q.name = true) : p = q := by
  by_contra hne
  have : Std.Symm fun p q : Parameter => eqIgnoringCase p.name q.name = false :=
    ⟨fun p q hpq => by rwa [eqIgnoringCase_comm]⟩
  have hf := List.Pairwise.forall h hp hq hne
  rw [he] at hf
  cases hf

end ParameterMap

namespace HeaderValue

variable {h h₁ h₂ : HeaderValue} {name value : Text}

/-- **A lookup answers with the value of the parameter that has the name**, wherever it stands. -/
theorem getParameter?_eq_some_iff (hd : h.parameters.CaseDistinct) : h.getParameter? name = some value ↔
    ∃ p ∈ h.parameters.entries, eqIgnoringCase p.name name = true ∧ p.value = value := by
  have hu : ∀ p ∈ h.parameters.entries, ∀ q ∈ h.parameters.entries,
      eqIgnoringCase p.name name = true → eqIgnoringCase q.name name = true → p = q := by
    intro p hp q hq hpn hqn
    exact hd.eq_of_eqIgnoringCase hp hq (eqIgnoringCase_of_both hpn hqn)
  simp only [getParameter?, Option.map_eq_some_iff, find?_eq_some_iff_of_unique hu, and_assoc]

/-- **The order of the parameters does not matter to a lookup.** -/
theorem getParameter?_eq_of_perm (hd : h₁.parameters.CaseDistinct)
    (hp : h₁.parameters.entries.Perm h₂.parameters.entries) (name : Text) :
    h₁.getParameter? name = h₂.getParameter? name := by
  apply Option.ext
  intro value
  simp only [getParameter?_eq_some_iff hd, getParameter?_eq_some_iff (hd.of_perm hp), hp.mem_iff]

end HeaderValue

end FoldedHeader
