import FoldedHeader.Parameter

/-!
# Parameters by name

A `ParameterMap` is a list of parameters in which no two have the same name; it keeps the order in which names were
first inserted. Names are compared exactly. There are two ways to take a parameter out: `erase` keeps the order of the
others, `eraseSwap` moves the last one to its place (`perm_dropSwap`: either way the same parameters stay). `sorted`
gives the parameters in the order of their names instead (`perm_sorted`, `pairwise_sorted`).

Two maps with the same parameters in any order are equivalent (`ParameterMap.equiv`).
-/

namespace FoldedHeader

/-! ## Lists of parameters -/

namespace Parameter

def names (ps : List Parameter) : List Text := ps.map Parameter.name

/-- The parameter of that name becomes `p`; without one, `p` goes to the end. -/
def put (p : Parameter) : List Parameter → List Parameter
  | [] => [p]
  | q :: qs => if q.name = p.name then p :: qs else q :: put p qs

/-- The parameters without the first of that name. -/
def drop (name : Text) : List Parameter → List Parameter
  | [] => []
  | q :: qs => if q.name = name then qs else q :: drop name qs

/-- The parameters without the first of that name, whose place the last one takes. -/
def dropSwap (name : Text) : List Parameter → List Parameter
  | [] => []
  | q :: qs =>
    if q.name = name then
      match qs.getLast? with
      | none => []
      | some last => last :: qs.dropLast
    else q :: dropSwap name qs

theorem mem_names_put {p : Parameter} {n : Text} :
    ∀ {ps : List Parameter}, n ∈ names (put p ps) ↔ n = p.name ∨ n ∈ names ps
  | [] => by simp [put, names]
  | q :: qs => by
    have ih : n ∈ names (put p qs) ↔ n = p.name ∨ n ∈ names qs := mem_names_put
    simp only [names] at ih
    unfold put
    split
    next h => simp [names, h]
    next h => simp [names, ih, or_left_comm]

theorem nodup_put (p : Parameter) : ∀ {ps : List Parameter}, (names ps).Nodup → (names (put p ps)).Nodup
  | [], _ => by simp [put, names]
  | q :: qs, h => by
    obtain ⟨hq, hqs⟩ := List.nodup_cons.mp h
    unfold put
    split
    next hn => exact List.nodup_cons.mpr ⟨hn ▸ hq, hqs⟩
    next hn =>
      refine List.nodup_cons.mpr ⟨fun hm => ?_, nodup_put p hqs⟩
      rcases mem_names_put.mp hm with he | hm
      · exact hn he
      · exact hq hm

theorem drop_sublist (name : Text) : ∀ ps : List Parameter, (drop name ps).Sublist ps
  | [] => List.Sublist.refl _
  | q :: qs => by
    unfold drop
    split
    · exact List.sublist_cons_self q qs
    · exact (drop_sublist name qs).cons_cons q

/-- Both ways to take a parameter out leave the same parameters. -/
theorem perm_dropSwap (name : Text) : ∀ ps : List Parameter, (dropSwap name ps).Perm (drop name ps)
  | [] => List.Perm.refl _
  | q :: qs => by
    unfold dropSwap drop
    split
    · split
      next h => rw [List.getLast?_eq_none_iff.mp h]
      next last h =>
        obtain ⟨init, rfl⟩ := List.getLast?_eq_some_iff.mp h
        rw [List.dropLast_concat]
        exact (List.perm_append_singleton last init).symm
    · exact (perm_dropSwap name qs).cons q

/-- Does `s` stand before `t` in a list of names, or equal it? Characters compare by their code points, and a text
stands before those that go on from it. -/
def nameLe : (s t : Text) → Bool
  | [], _ => true
  | _ :: _, [] => false
  | c :: s, d :: t => c.toNat < d.toNat || (c == d && nameLe s t)

theorem nameLe_total : ∀ s t : Text, (nameLe s t || nameLe t s) = true
  | [], t => by simp [nameLe]
  | _ :: _, [] => by simp [nameLe]
  | c :: s, d :: t => by
    have ih := nameLe_total s t
    rcases Nat.lt_trichotomy c.toNat d.toNat with h | h | h
    · simp [nameLe, h]
    · simpa [nameLe, Char.toNat_inj.mp h] using ih
    · simp [nameLe, h]

theorem nameLe_trans : ∀ s t u : Text, nameLe s t = true → nameLe t u = true → nameLe s u = true
  | [], _, _, _, _ => by simp [nameLe]
  | _ :: _, [], _, h, _ => by simp [nameLe] at h
  | _ :: _, _ :: _, [], _, h => by simp [nameLe] at h
  | c :: s, d :: t, e :: u, h, h' => by
    simp only [nameLe, Bool.or_eq_true, decide_eq_true_eq, Bool.and_eq_true, beq_iff_eq] at h h' ⊢
    rcases h with h | ⟨rfl, h⟩
    · rcases h' with h' | ⟨rfl, _⟩
      · exact Or.inl (Nat.lt_trans h h')
      · exact Or.inl h
    · rcases h' with h' | ⟨rfl, h'⟩
      · exact Or.inl h'
      · exact Or.inr ⟨rfl, nameLe_trans s t u h h'⟩

end Parameter

/-! ## Maps -/

/-- Parameters with distinct names, in order. -/
structure ParameterMap where
  entries : List Parameter
  nodup : (Parameter.names entries).Nodup

namespace ParameterMap

def empty : ParameterMap := ⟨[], List.nodup_nil⟩

/-- The value under a name. -/
def get? (m : ParameterMap) (name : Text) : Option Text :=
  (m.entries.find? (·.name == name)).map Parameter.value

/-- Put a parameter in the place of the one of its name, or at the end. -/
def insert (m : ParameterMap) (p : Parameter) : ParameterMap :=
  ⟨Parameter.put p m.entries, Parameter.nodup_put p m.nodup⟩

/-- Take a parameter out; the others stay in order. -/
def erase (m : ParameterMap) (name : Text) : ParameterMap :=
  ⟨Parameter.drop name m.entries, ((Parameter.drop_sublist name m.entries).map _).nodup m.nodup⟩

/-- Take a parameter out; the last one takes its place. -/
def eraseSwap (m : ParameterMap) (name : Text) : ParameterMap :=
  ⟨Parameter.dropSwap name m.entries, ((Parameter.perm_dropSwap name m.entries).map _).symm.nodup (m.erase name).nodup⟩

/-- The map of a list of parameters: of several with the same name, the first gives the place and the last the
value. -/
def ofList (ps : List Parameter) : ParameterMap := ps.foldl insert empty

/-- The parameters in the order of their names, character by character. -/
def sorted (m : ParameterMap) : List Parameter := m.entries.mergeSort fun p q => Parameter.nameLe p.name q.name

theorem perm_sorted (m : ParameterMap) : m.sorted.Perm m.entries := List.mergeSort_perm _ _

/-- The sorted parameters are in order. -/
theorem pairwise_sorted (m : ParameterMap) :
    m.sorted.Pairwise fun p q => Parameter.nameLe p.name q.name = true :=
  List.pairwise_mergeSort (fun p q r => Parameter.nameLe_trans p.name q.name r.name)
    (fun p q => Parameter.nameLe_total p.name q.name) m.entries

/-- Have two maps the same parameters, in whatever order? -/
def equiv (m₁ m₂ : ParameterMap) : Bool :=
  m₁.entries.length == m₂.entries.length && m₁.entries.all fun p => m₂.get? p.name == some p.value

end ParameterMap

end FoldedHeader
