import FoldedHeader.Proofs.CheapestForm
import FoldedHeader.Proofs.LargerLimit

/-!
# Prefixes of a value

Filling never looks ahead: on a prefix of the items it takes the same steps until they are used up, so that its lines
are the first of those for all items, the last of them perhaps cut short (`exists_fill_of_append`). And a form of one
line that fits for a value has one for each prefix that is not empty (`Form.exists_oneLine_of_isPrefix`). Hence a
parameter can be encoded with every such prefix of a value with which it can be encoded, on no more lines
(`Encoder.encode_of_isPrefix`).
-/

namespace FoldedHeader

/-! ## Filling with a prefix of the items -/

namespace Filling.Rule

variable {α : Type} {r : Rule α} {s t : State α} {lines : List (List α)}

/-- A run keeps the lines that there are: the open one may go on, and others may follow. -/
theorem run_extends (h : r.run s = some lines) : ∃ more others, lines = s.closed ++ (s.line ++ more) :: others := by
  fun_induction run r s with
  | case1 s t ht ih =>
    obtain ⟨more, others, rfl⟩ := ih h
    rcases step_eq_next ht with ⟨a, rest, _, _, rfl⟩ | ⟨a, rest, room, _, _, _, _, rfl⟩
    · exact ⟨a :: more, others, by simp⟩
    · exact ⟨[], more :: others, by simp [State.lines]⟩
  | case2 s _ =>
    cases h
    exact ⟨[], [], by simp [State.lines]⟩
  | case3 => cases h

/-- A step that goes on is the same whatever stands behind the next item. -/
theorem step_of_rest_eq_append {a : α} {items more : List α} (h : r.step s = .next t)
    (hs : s.rest = a :: items ++ more) :
    ∃ items', t.rest = items' ++ more ∧ r.step { s with rest := a :: items } = .next { t with rest := items' } := by
  rcases step_eq_next h with ⟨b, rest, hr, hle, rfl⟩ | ⟨b, rest, room, hr, hlt, hf, hroom, rfl⟩
  · rw [hs, List.cons_append, List.cons.injEq] at hr
    obtain ⟨rfl, rfl⟩ := hr
    exact ⟨items, rfl, by simp [step, hle]⟩
  · rw [hs, List.cons_append, List.cons.injEq] at hr
    obtain ⟨rfl, rfl⟩ := hr
    have hf' : ({ s with rest := a :: items } : State α).fresh = false := hf
    exact ⟨a :: items, rfl, by simp [step, hlt, hf', hroom, State.lines]⟩

/-- With only the first items left, a run takes the same steps up to where these are placed. -/
theorem exists_run_of_rest_eq_append {items more : List α} (h : r.run s = some lines) (hs : s.rest = items ++ more) :
    ∃ closed line tail others, r.run { s with rest := items } = some (closed ++ [line]) ∧
      lines = closed ++ (line ++ tail) :: others := by
  fun_induction run r s generalizing items with
  | case1 s t ht ih =>
    cases items with
    | nil =>
      obtain ⟨tail, others, hl⟩ := run_extends ((run_of_next ht).trans h)
      exact ⟨s.closed, s.line, tail, others, run_of_rest_eq_nil rfl, hl⟩
    | cons a items =>
      obtain ⟨items', hr, hstep⟩ := step_of_rest_eq_append ht hs
      rw [run_of_next hstep]
      exact ih h hr
  | case2 s hd =>
    have hnil : items = [] := (List.append_eq_nil_iff.mp (hs.symm.trans (step_eq_done_iff.mp hd))).1
    cases h
    exact ⟨s.closed, s.line, [], [], run_of_rest_eq_nil hnil, by simp [State.lines]⟩
  | case3 => cases h

/-- **Filling with a prefix of the items gives the first of the lines**, the last of them perhaps cut short. -/
theorem exists_fill_of_append {items more : List α} (h : r.fill (items ++ more) = some lines) :
    ∃ closed line tail others, r.fill items = some (closed ++ [line]) ∧
      lines = closed ++ (line ++ tail) :: others := by
  obtain ⟨s, hs, hr⟩ := Option.bind_eq_some_iff.mp h
  obtain ⟨room, hroom, rfl⟩ := Option.map_eq_some_iff.mp hs
  obtain ⟨closed, line, tail, others, hrun, hl⟩ := exists_run_of_rest_eq_append hr rfl
  exact ⟨closed, line, tail, others, by simpa [fill, start, hroom] using hrun, hl⟩

end Filling.Rule

/-! ## The form for a prefix of the value -/

namespace Form

variable {max : Nat} {name u v : Text} {f g : Form}

theorem isToken_of_isPrefix (hne : u ≠ []) (hp : u <+: v) (h : isToken v = true) : isToken u = true := by
  simp only [isToken, Bool.and_eq_true, List.all_eq_true, Bool.not_eq_true', List.isEmpty_eq_false_iff] at h ⊢
  exact ⟨hne, fun c hc => h.2 c (hp.subset hc)⟩

theorem isQuotable_of_isPrefix (hp : u <+: v) (h : isQuotable v = true) : isQuotable u = true := by
  simp only [isQuotable, List.all_eq_true] at h ⊢
  exact fun c hc => h c (hp.subset hc)

/-- If a form of one line fits for a value, one fits for each prefix that is not empty. -/
theorem exists_oneLine_of_isPrefix (hne : u ≠ []) (hp : u <+: v) (hw : g.Writes ⟨name, v⟩) (ho : g.OneLine)
    (hf : g.Fits max name) : ∃ f : Form, f.Writes ⟨name, u⟩ ∧ f.OneLine ∧ f.Fits max name := by
  obtain ⟨w, rfl⟩ := hp
  have hp : u <+: u ++ w := List.prefix_append u w
  cases hw with
  | token hv =>
    refine ⟨token u, .token (isToken_of_isPrefix hne hp hv), trivial, fits_token_iff.mpr ?_⟩
    have hlen := fits_token_iff.mp hf
    rw [List.length_append] at hlen
    omega
  | quoted hq =>
    obtain ⟨hv, rfl⟩ := QuotedString.quote_eq_ok_iff_isQuotable.mp hq
    refine ⟨_, .quoted (QuotedString.quote_eq name (isQuotable_of_isPrefix hp hv)), trivial, fits_quoted_iff.mpr ?_⟩
    have hlen := fits_quoted_iff.mp hf
    simp only [List.flatMap_append, List.length_append, List.length_cons, List.length_nil] at hlen ⊢
    omega
  | extended =>
    have hlen := (fits_extended_iff (p := ⟨name, u ++ w⟩)).mp hf
    refine ⟨extended u, .extended, trivial, (fits_extended_iff (p := ⟨name, u⟩)).mpr ?_⟩
    simp only [extendedWidth, Percent.encodedLength_append] at hlen ⊢
    omega
  | continued => exact ho.elim

/-- Lines that the others go on from are written as a prefix of them. -/
theorem render_continued_isPrefix (name : Text) (closed : List Text) (line tail : Text) (others : List Text) :
    (continued (closed ++ [line])).render name <+: (continued (closed ++ (line ++ tail) :: others)).render name := by
  simp only [render_continued, List.mapIdx_append, List.flatten_append, List.mapIdx_cons, List.flatten_cons,
    List.mapIdx_nil, List.flatten_nil, List.append_nil, Percent.encode_append]
  rw [List.prefix_append_right_inj, List.append_assoc fold, List.prefix_append_right_inj, List.append_assoc,
    List.prefix_append_right_inj, List.append_assoc]
  exact List.prefix_append _ _

/-- **With a prefix of its value there is still a form for a parameter**, it takes no more lines, and if both are
percent-encoded on several lines, the text is a prefix too. -/
theorem choose_of_isPrefix (hne : u ≠ []) (hp : u <+: v) (h : choose max ⟨name, v⟩ = .ok g) :
    ∃ f, choose max ⟨name, u⟩ = .ok f ∧ (f.lines name).length ≤ (g.lines name).length ∧
      ∀ pieces pieces', f = continued pieces → g = continued pieces' → f.render name <+: g.render name := by
  rcases choose_cases max ⟨name, u⟩ with ⟨f, _, ho, _, hc⟩ | ⟨hn, hc⟩
  · refine ⟨f, hc, ?_, ?_⟩
    · rw [ho.length_lines]
      exact (writes_of_choose h).1.length_lines_pos name
    · rintro pieces _ rfl _
      exact ho.elim
  · -- no form of one line fits for the whole value either, so filling gave its lines
    have hn' : NoOneLineFits max ⟨name, v⟩ := by
      intro g' hw ho hf
      obtain ⟨f, hw', ho', hf'⟩ := exists_oneLine_of_isPrefix hne hp hw ho hf
      exact hn f hw' ho' hf'
    obtain ⟨pieces, hfill, rfl⟩ := exists_fill_of_noOneLineFits hn' h
    obtain ⟨w, rfl⟩ := hp
    obtain ⟨closed, line, tail, others, hfill', rfl⟩ := Filling.Rule.exists_fill_of_append hfill
    refine ⟨continued (closed ++ [line]), ?_, ?_, fun _ _ _ _ => render_continued_isPrefix name closed line tail others⟩
    · rw [hc, chooseContinued, hfill']
    · rw [length_lines_continued, length_lines_continued]
      simp

end Form

namespace Encoder

variable {e : Encoder} {name u v value out : Text}

/-- **Success and the number of lines are monotone in the value.** With a prefix of its value that is not empty, a
parameter can still be encoded, and no more lines are written; if continuation lines are written for both, what is
written for the prefix is a prefix of what is written for the whole. -/
theorem encode_of_isPrefix (hne : u ≠ []) (hp : u <+: v) (h : e.encode value [⟨name, v⟩] = .ok out) :
    ∃ f g, Form.choose e.maxLineLength ⟨name, u⟩ = .ok f ∧ Form.choose e.maxLineLength ⟨name, v⟩ = .ok g ∧
      e.encode value [⟨name, u⟩] = .ok (value ++ (f.lines name).flatMap (fold ++ ·)) ∧
      out = value ++ (g.lines name).flatMap (fold ++ ·) ∧ (f.lines name).length ≤ (g.lines name).length ∧
      ∀ pieces pieces', f = .continued pieces → g = .continued pieces' →
        (f.lines name).flatMap (fold ++ ·) <+: (g.lines name).flatMap (fold ++ ·) := by
  obtain ⟨g, hg, rfl⟩ := encode_singleton_eq_ok_iff.mp h
  obtain ⟨f, hf, hlen, htext⟩ := Form.choose_of_isPrefix hne hp hg
  exact ⟨f, g, hf, hg, encode_singleton_eq_ok_iff.mpr ⟨f, hf, rfl⟩, rfl, hlen, htext⟩

/-- Two characters on lines of seventeen columns, and the first of them: both need continuation lines. -/
theorem prefix_of_continued :
    ['€'] ≠ [] ∧ ['€'] <+: ['€', '€'] ∧
    (Encoder.mk 17).encode ['v'] [⟨['n'], ['€', '€']⟩] =
      .ok "v;\r\n n*0*=UTF-8'';\r\n n*1*=%E2%82%AC;\r\n n*2*=%E2%82%AC".toList ∧
    (Encoder.mk 17).encode ['v'] [⟨['n'], ['€']⟩] = .ok "v;\r\n n*0*=UTF-8'';\r\n n*1*=%E2%82%AC".toList ∧
    ∃ f g, Form.choose 17 ⟨['n'], ['€']⟩ = .ok f ∧ Form.choose 17 ⟨['n'], ['€', '€']⟩ = .ok g ∧
      (f.lines ['n']).length ≤ (g.lines ['n']).length ∧
      (f.lines ['n']).flatMap (fold ++ ·) <+: (g.lines ['n']).flatMap (fold ++ ·) := by
  have hne : ['€'] ≠ [] := by decide
  have hp : ['€'] <+: ['€', '€'] := List.prefix_append _ _
  have h : (Encoder.mk 17).encode ['v'] [⟨['n'], ['€', '€']⟩] =
      .ok "v;\r\n n*0*=UTF-8'';\r\n n*1*=%E2%82%AC;\r\n n*2*=%E2%82%AC".toList := by cbv
  have hu : Form.choose 17 ⟨['n'], ['€']⟩ = .ok (.continued [[], ['€']]) := by cbv
  have hv : Form.choose 17 ⟨['n'], ['€', '€']⟩ = .ok (.continued [[], ['€'], ['€']]) := by cbv
  obtain ⟨f, g, hf, hg, henc, _, hlen, htext⟩ := encode_of_isPrefix hne hp h
  obtain rfl := Except.ok.inj (hu.symm.trans hf)
  obtain rfl := Except.ok.inj (hv.symm.trans hg)
  exact ⟨hne, hp, h, henc.trans (by cbv), _, _, hf, hg, hlen, htext _ _ rfl rfl⟩

/-- The empty prefix can be too long: its quotes take a column more than a character without them. -/
example : (Encoder.mk 5).encode ['v'] [⟨['n'], ['x']⟩] = .ok "v;\r\n n=x".toList ∧
    (Encoder.mk 5).encode ['v'] [⟨['n'], []⟩] = .error (.nameTooLong ['n'] 5) := by
  constructor <;> cbv

end Encoder

end FoldedHeader
