import Stencil.Proofs.PathText

/-!
Paths and expressions read back. The steps of a path that can be written have a path text, whose
names are all in brackets and whose separators are all slashes.
-/
namespace Stencil
namespace Written

/-! Paths. -/

theorem isPlain_ne_parent {s : PathStep} (h : isPlain s) : s ≠ .parent := by
  rintro rfl
  simp [isPlain] at h

/-- A step behind the parents is written as a segment. -/
theorem segmentText_stepText {s : PathStep} (hs : isPlain s) (hn : ']' ∉ (stepName s).toList) :
    SegmentText s (stepText s) := by
  cases s with
  | parent | datum name => cases hs
  | this => exact .this
  | field name =>
    have htext : SegmentText (.field (String.ofList name.toList)) (stepText (.field name)) :=
      .field (.bracketed hn) (by simp [stepText])
    rwa [String.ofList_toList] at htext

theorem exists_tailText (first : PathStep) {rest : List PathStep} (hrest : ∀ x ∈ rest, isPlain x)
    (hn : ∀ x ∈ rest, ']' ∉ (stepName x).toList) :
    ∃ tail, stepsText (first :: rest) = stepText first ++ tail ∧ TailText rest tail := by
  induction rest generalizing first with
  | nil => exact ⟨[], (List.append_nil _).symm, .nil⟩
  | cons next rest ih =>
    obtain ⟨hnext, hrest⟩ := List.forall_mem_cons.mp hrest
    obtain ⟨hname, hn⟩ := List.forall_mem_cons.mp hn
    obtain ⟨tail, htext, htail⟩ := ih next hrest hn
    refine ⟨'/' :: (stepText next ++ tail), ?_, .cons (.inr rfl)
      (segmentText_stepText hnext hname) htail⟩
    rw [← htext]
    rfl

/-- Parents in front of other steps are written with a slash behind each. -/
theorem stepsText_parents (n : Nat) : ∃ parents, ParentsText n parents ∧
    ∀ s rest, stepsText (List.replicate n .parent ++ s :: rest) =
      parents ++ stepsText (s :: rest) := by
  induction n with
  | zero => exact ⟨[], .zero, fun _ _ => rfl⟩
  | succ n ih =>
    obtain ⟨parents, hparents, htext⟩ := ih
    refine ⟨_, .succ (.inr rfl) hparents, fun s rest => ?_⟩
    rw [List.cons_append, List.cons_append, List.cons_append, ← htext]
    cases n <;> rfl

theorem any_isDatum (n : Nat) (mark : Option String) {plain : List PathStep}
    (hp : ∀ s ∈ plain, isPlain s) :
    (List.replicate n PathStep.parent ++ (mark.toList.map PathStep.datum ++ plain)).any isDatum =
      mark.isSome := by
  have hplain : plain.any isDatum = false := by
    simp only [List.any_eq_false]
    intro s hs
    cases s with
    | this | field name | parent => simp [isDatum]
    | datum name => exact absurd (hp _ hs) (by simp [isPlain])
  cases mark <;> simp [hplain, isDatum]

theorem pathText_writable {p : Path} (hp : WritablePath p) :
    PathText p.steps (pathText p.steps) := by
  obtain ⟨nonempty, ⟨n, mark, plain, hsteps, hplain⟩, names, -⟩ := hp
  obtain ⟨steps, source⟩ := p
  dsimp only at nonempty hsteps names ⊢
  rw [List.append_assoc] at hsteps
  have hmark := any_isDatum n mark hplain
  have hplainNames : ∀ x ∈ plain, ']' ∉ (stepName x).toList := fun x hx =>
    names x (by simp [hsteps, hx])
  obtain ⟨parents, hparents, htext⟩ := stepsText_parents n
  rw [pathText, hsteps, hmark]
  cases mark with
  | some name =>
    obtain ⟨tail, htail, htailText⟩ := exists_tailText (.datum name) hplain hplainNames
    have hname : ']' ∉ name.toList := names (.datum name) (by simp [hsteps])
    have hpath := PathText.datum (.parents hparents) (.bracketed hname) htailText
    rw [String.ofList_toList] at hpath
    change PathText _ ('@' :: stepsText (_ ++ .datum name :: plain))
    rw [htext, htail]
    exact hpath
  | none =>
    change PathText (_ ++ plain) (stepsText (_ ++ plain))
    cases plain with
    | cons s rest =>
      obtain ⟨hs, hrest⟩ := List.forall_mem_cons.mp hplain
      obtain ⟨hname, hn⟩ := List.forall_mem_cons.mp hplainNames
      obtain ⟨tail, htail, htailText⟩ := exists_tailText s hrest hn
      rw [htext, htail]
      exact .segments (.parents hparents) (segmentText_stepText hs hname) htailText
    | nil =>
      obtain ⟨k, rfl⟩ : ∃ k, n = k + 1 :=
        Nat.exists_eq_succ_of_ne_zero (by rintro rfl; simp [hsteps] at nonempty)
      obtain ⟨parents, hparents, htext⟩ := stepsText_parents k
      have hlast : stepsText (List.replicate (k + 1) .parent) = parents ++ ['.', '.'] := by
        rw [List.replicate_succ', htext]
        rfl
      rw [List.append_nil, hlast]
      exact .alone (.onlyParents hparents)

theorem path_pathText {p : Path} (hp : WritablePath p) {t : List Char} (ht : WordEnd t) (m : Mark) :
    (Cursor.mk m (pathText p.steps ++ t)).path = .ok (p, ⟨m.past (pathText p.steps), t⟩) := by
  have hread := (pathText_writable hp).path ht m
  rwa [← hp.source] at hread

/-! Expressions. -/

theorem stepsText_append (s : PathStep) (rest : List PathStep) :
    ∃ more, stepsText (s :: rest) = stepText s ++ more ∧ more.head?.all (· == '/') := by
  cases rest with
  | nil => exact ⟨[], by simp [stepsText], rfl⟩
  | cons next rest => exact ⟨_, rfl, rfl⟩

/-- The text of a path with steps starts like one of these, and the word `this` ends there. -/
theorem pathText_append {steps : List PathStep} (h : steps ≠ []) :
    ∃ first ∈ [['@'], ['t', 'h', 'i', 's'], ['.', '.'], ['[']], ∃ more,
      pathText steps = first ++ more ∧
        (first = ['t', 'h', 'i', 's'] → more.head?.all (· == '/')) := by
  obtain ⟨s, rest, rfl⟩ := List.exists_cons_of_ne_nil h
  obtain ⟨more, hmore, hslash⟩ := stepsText_append s rest
  rw [pathText]
  split
  · exact ⟨['@'], by simp, _, rfl, by simp⟩
  · rw [hmore]
    cases s with
    | this => exact ⟨['t', 'h', 'i', 's'], by simp, more, rfl, fun _ => hslash⟩
    | parent => exact ⟨['.', '.'], by simp, more, rfl, by simp⟩
    | datum name | field name =>
      exact ⟨['['], by simp, name.toList ++ ']' :: more, by simp [stepText], by simp⟩

theorem numeral?_pathText {steps : List PathStep} (h : steps ≠ []) (t : List Char) :
    numeral? (pathText steps ++ t) = none := by
  obtain ⟨first, hfirst, more, hmore, -⟩ := pathText_append h
  rw [hmore]
  simp only [List.mem_cons, List.not_mem_nil, or_false] at hfirst
  rcases hfirst with rfl | rfl | rfl | rfl <;>
    simp [numeral?, truthWord?, decimalNumeral?, DecimalWord.ofText, List.isPrefixOf]

/-- The characters that no expression starts with. -/
def tagMarks : List Char := ['}', '~', '=', '!', '{', '&', '#', '^', '/', '>', 'e']

theorem numeralSource_eq_cons {n : Numeral} (hn : WritableNumeral n) :
    ∃ c text, n.source.toList = c :: text ∧ (c ∈ ['t', 'f', '-'] ∨ c.isDigit) := by
  rcases hn with rfl | rfl | ⟨w, hw, hd, rfl⟩
  · exact ⟨'t', _, rfl, .inl (by decide)⟩
  · exact ⟨'f', _, rfl, .inl (by decide)⟩
  · obtain ⟨c, text, hc, hclass⟩ := text_eq_cons hw hd
    exact ⟨c, text, by simpa using hc, hclass.imp_left (by rintro rfl; decide)⟩

theorem expressionText_eq_cons {e : Expression} (he : WritableExpression e) :
    ∃ c text, expressionText e = c :: text ∧ isSpace c = false ∧ c ∉ tagMarks := by
  cases e with
  | string s => exact ⟨'"', _, rfl, by decide, by decide⟩
  | path p =>
    obtain ⟨first, hfirst, more, hmore, -⟩ := pathText_append he.nonempty
    simp only [List.mem_cons, List.not_mem_nil, or_false] at hfirst
    rcases hfirst with rfl | rfl | rfl | rfl <;> exact ⟨_, _, hmore, by decide, by decide⟩
  | numeral n =>
    obtain ⟨c, text, hc, hclass⟩ := numeralSource_eq_cons he
    refine ⟨c, text, hc, ?_⟩
    rcases hclass with h | h
    · simp only [List.mem_cons, List.not_mem_nil, or_false] at h
      rcases h with rfl | rfl | rfl <;> exact ⟨by decide, by decide⟩
    · refine ⟨not_isSpace_of_isDigit h, fun hmem => ?_⟩
      have := List.all_eq_true.mp (show tagMarks.all fun d => !d.isDigit from by decide) c hmem
      simp [h] at this

theorem expression_text {e : Expression} (he : WritableExpression e) {t : List Char}
    (ht : WordEnd t) (m : Mark) :
    (Cursor.mk m (expressionText e ++ t)).expression =
      .ok (e, ⟨m.past (expressionText e), t⟩) := by
  cases e with
  | string s =>
    have h := quoted_stringText he m t
    rw [expressionText]
    simp only [stringText, List.cons_append] at h ⊢
    simp only [Cursor.expression, beq_self_eq_true, Bool.true_or, if_true, h]
  | numeral n =>
    have h := numeral?_source he ht
    have hreach := Cursor.reach_append m n.source.toList t
    obtain ⟨c, text, hc, hclass⟩ := numeralSource_eq_cons he
    have hq : (c == '"' || c == '\'') = false := by
      rcases hclass with hc | hc
      · simp only [List.mem_cons, List.not_mem_nil, or_false] at hc
        rcases hc with rfl | rfl | rfl <;> decide
      · simp [isDigit_ne hc (d := '"') (by decide), isDigit_ne hc (d := '\'') (by decide)]
    rw [expressionText]
    simp only [hc, List.cons_append] at h hreach ⊢
    simp only [Cursor.expression, hq, Bool.false_eq_true, if_false, h, hreach]
  | path p =>
    have hnone := numeral?_pathText he.nonempty t
    have h := path_pathText he ht m
    obtain ⟨first, hfirst, more, hmore, -⟩ := pathText_append he.nonempty
    rw [expressionText]
    rw [hmore] at h hnone ⊢
    simp only [List.mem_cons, List.not_mem_nil, or_false] at hfirst
    rcases hfirst with rfl | rfl | rfl | rfl <;>
      simp_all [Cursor.expression]

end Written
end Stencil
