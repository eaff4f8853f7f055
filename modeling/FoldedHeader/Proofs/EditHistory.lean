import Mathlib.Data.List.Infix
import FoldedHeader.Proofs.NameLookup

/-!
# What a history of edits leaves

Parameters are put into a map and taken out of it in two ways (`Edit`). An edit changes nothing at other names
(`ParameterMap.mem_edit_iff`), so that a parameter is there after a run of edits just if it was put in, or was there at
the start, and no edit since is about its name (`ParameterMap.mem_edits_iff`). Exact spelling and order are all that the
edits know; a lookup ignores case and takes the first match. While no two names are equal but for case, the two agree
(`HeaderValue.lookup_after_edits`): a lookup answers with the value last put under the name asked for, in whatever
spelling, unless it was taken out under the spelling it was put with.
-/

namespace FoldedHeader

/-- An edit of a map. -/
inductive Edit
  /-- Put a parameter in the place of the one of its name, or at the end. -/
  | insert (p : Parameter)
  /-- Take the parameter of that name out; the others stay in order. -/
  | erase (name : Text)
  /-- Take the parameter of that name out; the last one takes its place. -/
  | eraseSwap (name : Text)
  deriving DecidableEq

/-- The name that an edit is about. -/
def Edit.name : Edit → Text
  | insert p => p.name
  | erase name | eraseSwap name => name

/-! ## One edit of a list -/

namespace Parameter

variable {p q : Parameter} {ps : List Parameter} {name : Text}

theorem name_ne_of_nodup_cons (h : (names (q :: ps)).Nodup) (hp : p ∈ ps) : p.name ≠ q.name := by
  intro he
  exact (List.nodup_cons.mp h).1 (he ▸ List.mem_map_of_mem hp)

/-- To put a parameter is to take out the one of its name and have it instead. -/
theorem perm_put (p : Parameter) : ∀ ps : List Parameter, (put p ps).Perm (p :: drop p.name ps)
  | [] => List.Perm.refl _
  | q :: qs => by
    unfold put drop
    by_cases hn : q.name = p.name
    · rw [if_pos hn, if_pos hn]
    · rw [if_neg hn, if_neg hn]
      exact ((perm_put p qs).cons q).trans (List.Perm.swap p q _)

/-- Under distinct names, taking one out leaves all the others. -/
theorem mem_drop_iff (h : (names ps).Nodup) : q ∈ drop name ps ↔ q ∈ ps ∧ q.name ≠ name := by
  induction ps with
  | nil => simp [drop]
  | cons r ps ih =>
    have hr : q ∈ ps → q.name ≠ r.name := name_ne_of_nodup_cons h
    unfold drop
    by_cases hn : r.name = name
    · rw [if_pos hn, List.mem_cons]
      rw [hn] at hr
      constructor
      · intro hq
        exact ⟨Or.inr hq, hr hq⟩
      · rintro ⟨rfl | hq, hne⟩
        · exact absurd hn hne
        · exact hq
    · rw [if_neg hn, List.mem_cons, List.mem_cons, ih (List.nodup_cons.mp h).2]
      constructor
      · rintro (rfl | ⟨hq, hne⟩)
        · exact ⟨Or.inl rfl, hn⟩
        · exact ⟨Or.inr hq, hne⟩
      · rintro ⟨rfl | hq, hne⟩
        · exact Or.inl rfl
        · exact Or.inr ⟨hq, hne⟩

theorem mem_put_iff (h : (names ps).Nodup) : q ∈ put p ps ↔ q = p ∨ q ∈ ps ∧ q.name ≠ p.name := by
  rw [(perm_put p ps).mem_iff, List.mem_cons, mem_drop_iff h]

end Parameter

namespace ParameterMap

variable {m : ParameterMap} {es after : List Edit} {e : Edit} {p q : Parameter}

/-- The map after an edit. -/
def edit (m : ParameterMap) : Edit → ParameterMap
  | .insert p => m.insert p
  | .erase name => m.erase name
  | .eraseSwap name => m.eraseSwap name

/-- The map after some edits, in their order. -/
def edits (m : ParameterMap) (es : List Edit) : ParameterMap := es.foldl edit m

theorem edits_concat (m : ParameterMap) (es : List Edit) (e : Edit) : m.edits (es ++ [e]) = (m.edits es).edit e :=
  List.foldl_concat edit m e es

/-- **An edit puts its parameter in, and changes nothing at other names.** -/
theorem mem_edit_iff : p ∈ (m.edit e).entries ↔ e = .insert p ∨ p ∈ m.entries ∧ e.name ≠ p.name := by
  cases e with
  | insert q =>
    simp only [edit, insert, Parameter.mem_put_iff m.nodup, Edit.insert.injEq, Edit.name, ne_eq, eq_comm]
  | erase name => simp only [edit, erase, Parameter.mem_drop_iff m.nodup, Edit.name, reduceCtorEq, false_or, ne_comm]
  | eraseSwap name =>
    simp only [edit, eraseSwap, (Parameter.perm_dropSwap name m.entries).mem_iff, Parameter.mem_drop_iff m.nodup,
      Edit.name, reduceCtorEq, false_or, ne_comm]

/-! ## A run of edits -/

/-- One of the edits puts `p` into the map, or `p` is there at the start, and `after` are the edits from then on. -/
def PutBefore (m : ParameterMap) (es : List Edit) (p : Parameter) (after : List Edit) : Prop :=
  p ∈ m.entries ∧ after = es ∨ ∃ before, es = before ++ .insert p :: after

theorem PutBefore.append (h : m.PutBefore es p after) (more : List Edit) :
    m.PutBefore (es ++ more) p (after ++ more) := by
  rcases h with ⟨hp, rfl⟩ | ⟨before, rfl⟩
  · exact Or.inl ⟨hp, rfl⟩
  · exact Or.inr ⟨before, by rw [List.append_assoc, List.cons_append]⟩

/-- The edits at the end of those from then on are the last of all. -/
theorem PutBefore.split {more : List Edit} (h : m.PutBefore es p (after ++ more)) :
    ∃ es', es = es' ++ more ∧ m.PutBefore es' p after := by
  rcases h with ⟨hp, rfl⟩ | ⟨before, rfl⟩
  · exact ⟨after, rfl, Or.inl ⟨hp, rfl⟩⟩
  · exact ⟨before ++ .insert p :: after, by rw [List.append_assoc, List.cons_append], Or.inr ⟨before, rfl⟩⟩

/-- What is put last of all is put by the last edit. -/
theorem PutBefore.eq_insert (h : m.PutBefore (es ++ [e]) p []) : e = .insert p := by
  rcases h with ⟨_, hnil⟩ | ⟨before, hb⟩
  · exact absurd hnil.symm (List.concat_ne_nil e es)
  · exact List.singleton_inj.mp (List.append_inj' hb rfl).2

/-- **After a run of edits a parameter is there just if it was put in, and no edit since is about its name.** -/
theorem mem_edits_iff :
    p ∈ (m.edits es).entries ↔ ∃ after, m.PutBefore es p after ∧ ∀ e ∈ after, e.name ≠ p.name := by
  induction es using List.reverseRecOn with
  | nil => simp [edits, PutBefore]
  | append_singleton es e ih =>
    rw [edits_concat, mem_edit_iff, ih]
    constructor
    · rintro (rfl | ⟨⟨after, hput, hun⟩, hne⟩)
      · exact ⟨[], Or.inr ⟨es, rfl⟩, fun e he => absurd he List.not_mem_nil⟩
      · refine ⟨after ++ [e], hput.append [e], fun e' he' => ?_⟩
        rcases List.mem_append.mp he' with he' | he'
        · exact hun e' he'
        · exact List.mem_singleton.mp he' ▸ hne
    · rintro ⟨after, hput, hun⟩
      rcases List.eq_nil_or_concat' after with rfl | ⟨after, e', rfl⟩
      · exact Or.inl hput.eq_insert
      · obtain ⟨es', hes, hput'⟩ := hput.split
        obtain ⟨rfl, he⟩ := List.append_inj' hes rfl
        cases he
        exact Or.inr ⟨⟨after, hput', fun e' he' => hun e' (List.mem_append_left _ he')⟩,
          hun e (List.mem_append_right _ (List.mem_singleton_self e))⟩

/-! ## Names without regard to case -/

/-- `value` was last put under a name that is `name` but for case, and was not taken out since under the spelling that
it was put with. -/
def LastPut (m : ParameterMap) (es : List Edit) (name value : Text) : Prop :=
  ∃ p after, m.PutBefore es p after ∧ p.value = value ∧ eqIgnoringCase p.name name = true ∧
    (∀ q, Edit.insert q ∈ after → eqIgnoringCase q.name name = false) ∧
    Edit.erase p.name ∉ after ∧ Edit.eraseSwap p.name ∉ after

/-- A parameter put in since under a like name has the same spelling, or else two like names would be there at once. -/
theorem PutBefore.not_like_of_untouched (hd : ∀ before ∈ es.inits, (m.edits before).CaseDistinct)
    (hput : m.PutBefore es p after) (hun : ∀ e ∈ after, e.name ≠ p.name) (hq : .insert q ∈ after) :
    eqIgnoringCase p.name q.name = false := by
  obtain ⟨between, rest, rfl⟩ := List.append_of_mem hq
  obtain ⟨before, rfl, hput'⟩ := hput.split
  -- The state in which `q` has just been put in holds both.
  have hp : p ∈ (m.edits (before ++ [.insert q])).entries := by
    refine mem_edits_iff.mpr ⟨_, hput'.append _, fun e he => hun e ?_⟩
    rcases List.mem_append.mp he with he | he
    · exact List.mem_append_left _ he
    · exact List.mem_singleton.mp he ▸ hq
  have hq' : q ∈ (m.edits (before ++ [.insert q])).entries :=
    mem_edits_iff.mpr ⟨[], Or.inr ⟨before, rfl⟩, fun e he => absurd he List.not_mem_nil⟩
  have hpre : before ++ [.insert q] <+: before ++ .insert q :: rest := ⟨rest, by simp⟩
  by_contra hlike
  rw [Bool.not_eq_false] at hlike
  have hpq : p = q := (hd _ ((List.mem_inits _ _).mpr hpre)).eq_of_eqIgnoringCase hp hq' hlike
  exact hun _ hq (congrArg Parameter.name hpq.symm)

/-- **While no two names are equal but for case, the value last put under a name is that of a parameter in the map.** -/
theorem lastPut_iff (hd : ∀ before ∈ es.inits, (m.edits before).CaseDistinct) {name value : Text} :
    m.LastPut es name value ↔ ∃ p ∈ (m.edits es).entries, eqIgnoringCase p.name name = true ∧ p.value = value := by
  constructor
  · rintro ⟨p, after, hput, hvalue, hname, hins, herase, hswap⟩
    refine ⟨p, mem_edits_iff.mpr ⟨after, hput, fun e he hen => ?_⟩, hname, hvalue⟩
    cases e with
    | insert q =>
      have hq := hins q he
      rw [show q.name = p.name from hen, hname] at hq
      cases hq
    | erase n => exact herase ((show n = p.name from hen) ▸ he)
    | eraseSwap n => exact hswap ((show n = p.name from hen) ▸ he)
  · rintro ⟨p, hp, hname, hvalue⟩
    obtain ⟨after, hput, hun⟩ := mem_edits_iff.mp hp
    refine ⟨p, after, hput, hvalue, hname, fun q hq => ?_, fun he => hun _ he rfl, fun he => hun _ he rfl⟩
    have hlike := hput.not_like_of_untouched hd hun hq
    by_contra hqname
    rw [eqIgnoringCase_of_both hname (Bool.not_eq_false _ ▸ hqname)] at hlike
    cases hlike

end ParameterMap

namespace HeaderValue

/-- The header value after some edits of its parameters. -/
def edits (h : HeaderValue) (es : List Edit) : HeaderValue := { h with parameters := h.parameters.edits es }

/-- **Lookups see a dictionary that ignores case.** Whatever edits were made, as long as no two names were ever equal
but for case, a lookup answers with the value last put under the name asked for, or that was there at the start, and
not taken out since under the spelling that it was put with; without one there is no answer. -/
theorem lookup_after_edits (h : HeaderValue) (es : List Edit)
    (hd : ∀ before ∈ es.inits, (h.parameters.edits before).CaseDistinct) (name : Text) :
    (∀ value, (h.edits es).getParameter? name = some value ↔ h.parameters.LastPut es name value) ∧
    ((h.edits es).getParameter? name = none ↔ ¬ ∃ value, h.parameters.LastPut es name value) ∧
    ((h.edits es).hasParameter name = true ↔ ∃ value, h.parameters.LastPut es name value) := by
  have hend : (h.edits es).parameters.CaseDistinct := hd es ((List.mem_inits _ _).mpr List.prefix_rfl)
  have hget : ∀ value, (h.edits es).getParameter? name = some value ↔ h.parameters.LastPut es name value := by
    intro value
    rw [getParameter?_eq_some_iff hend, ParameterMap.lastPut_iff hd]
    rfl
  refine ⟨hget, ?_, ?_⟩
  · simp only [← hget, ← Option.isSome_iff_exists, Option.not_isSome_iff_eq_none]
  · simp only [← hget, ← Option.isSome_iff_exists, hasParameter]

/-- The last parameter takes the place of the first, which comes back in another spelling; `b` is not what is stored,
and the second `d` goes for good. -/
theorem lookups_after_respelling :
    let h : HeaderValue := { parameters := ⟨[⟨['A'], ['1']⟩, ⟨['B'], ['2']⟩, ⟨['d'], ['3']⟩], by decide⟩ }
    let es : List Edit := [.eraseSwap ['A'], .insert ⟨['a'], ['4']⟩, .erase ['b'], .insert ⟨['d'], ['5']⟩, .eraseSwap ['d']]
    (∀ before ∈ es.inits, (h.parameters.edits before).CaseDistinct) ∧
      (h.edits es).parameters.entries = [⟨['a'], ['4']⟩, ⟨['B'], ['2']⟩] ∧
      (h.edits es).getParameter? ['A'] = some ['4'] ∧ (h.edits es).getParameter? ['b'] = some ['2'] ∧
      h.parameters.LastPut es ['A'] ['4'] ∧ h.parameters.LastPut es ['b'] ['2'] ∧
      ¬ ∃ value, h.parameters.LastPut es ['D'] value := by
  intro h es
  have hd : ∀ before ∈ es.inits, (h.parameters.edits before).CaseDistinct := by decide
  have ha : (h.edits es).getParameter? ['A'] = some ['4'] := by decide
  have hb : (h.edits es).getParameter? ['b'] = some ['2'] := by decide
  have hD : (h.edits es).getParameter? ['D'] = none := by decide
  exact ⟨hd, by decide, ha, hb, ((lookup_after_edits h es hd ['A']).1 ['4']).mp ha,
    ((lookup_after_edits h es hd ['b']).1 ['2']).mp hb, (lookup_after_edits h es hd ['D']).2.1.mp hD⟩

/-- With two names that are equal but for case, moving one in front of the other changes what a lookup sees. -/
example :
    let h : HeaderValue := { parameters := ⟨[⟨['x'], []⟩, ⟨['a'], ['1']⟩, ⟨['A'], ['2']⟩], by decide⟩ }
    (h.edits [.erase ['x']]).getParameter? ['a'] = some ['1'] ∧
      (h.edits [.eraseSwap ['x']]).getParameter? ['a'] = some ['2'] := by decide

end HeaderValue

end FoldedHeader
