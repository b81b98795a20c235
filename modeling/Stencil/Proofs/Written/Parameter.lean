import Stencil.Proofs.Written.Path

/-!
Parameters read back. They are read one by one up to the closing braces of their tag.
-/
namespace Stencil

/-- The closing braces of a tag follow, perhaps behind a tilde. -/
def TagEnd (text : List Char) : Prop := ∃ rest, text = '}' :: rest ∨ text = '~' :: '}' :: rest

theorem TagEnd.brace (rest : List Char) : TagEnd ('}' :: rest) := ⟨rest, .inl rfl⟩

theorem TagEnd.stops {text : List Char} (h : TagEnd text) {p : Char → Bool} (hb : p '}' = false)
    (ht : p '~' = false) : Stops p text := by
  obtain ⟨rest, rfl | rfl⟩ := h
  · exact stops_cons.mpr hb
  · exact stops_cons.mpr ht

theorem TagEnd.atTagEnd {text : List Char} (h : TagEnd text) (m : Mark) :
    (Cursor.mk m text).atTagEnd := by
  obtain ⟨rest, rfl | rfl⟩ := h
  · simp [Cursor.atTagEnd]
  · simpa [Cursor.atTagEnd] using .inr (Cursor.follows_append m ['~', '}'] rest)

theorem not_atTagEnd {c : Char} (hb : c ≠ '}') (ht : c ≠ '~') (m : Mark) (text : List Char) :
    (Cursor.mk m (c :: text)).atTagEnd = false := by
  simp [Cursor.atTagEnd, Cursor.follows, List.isPrefixOf, hb.symm, ht.symm]

/-- What may follow a word inside a tag: it ends the word, and it does not make it the name of a
parameter. -/
structure Ahead (text : List Char) : Prop where
  wordEnd : WordEnd text
  noEquals : (trimStart text).head? ≠ some '='

theorem Ahead.of_gap {gap text : List Char} (hg : Gap gap) (h : Stops isSpace text)
    (he : text.head? ≠ some '=') : Ahead (gap ++ text) := by
  obtain ⟨hne, hb⟩ := hg
  obtain ⟨c, gap, rfl⟩ := List.exists_cons_of_ne_nil hne
  refine ⟨?_, by rwa [hb.trimStart h]⟩
  intro d hd
  obtain rfl : c = d := by simpa using hd
  exact .inl (hb c (by simp))

theorem Ahead.of_end {b text : List Char} (hb : Blank b) (h : TagEnd text) : Ahead (b ++ text) := by
  have hstop : Stops isSpace text := h.stops (by decide) (by decide)
  constructor
  · intro c hc
    cases b with
    | nil =>
      obtain ⟨rest, rfl | rfl⟩ := h
      · exact .inr (.inl (by simpa [eq_comm] using hc))
      · exact .inr (.inr (by simpa [eq_comm] using hc))
    | cons d b =>
      obtain rfl : d = c := by simpa using hc
      exact .inl (hb d (by simp))
  · rw [hb.trimStart hstop]
    obtain ⟨rest, rfl | rfl⟩ := h <;> simp

theorem NamedParams.insert_fresh (params : NamedParams) {name : String} (e : Expression)
    (h : name ∉ params.entries.map (·.1)) :
    params.insert name e = ⟨params.entries ++ [(name, e)]⟩ := by
  have hany : params.entries.any (·.1 == name) = false := by
    simp only [List.any_eq_false, beq_iff_eq]
    intro entry hentry hname
    exact h (List.mem_map.mpr ⟨entry, hentry, hname⟩)
  simp [NamedParams.insert, hany]

namespace Cursor

theorem parameterName?_eq_none (run : List Char) {stop : List Char} (hr : ∀ c ∈ run, isNameChar c)
    (hs : Stops isNameChar stop) (he : (trimStart stop).head? ≠ some '=') (m : Mark) :
    (Cursor.mk m (run ++ stop)).parameterName? = none := by
  simp [parameterName?, hs.takeWhile hr, he]

theorem parameterName?_eq_some {name before : List Char} (hne : name ≠ [])
    (hn : ∀ c ∈ name, isNameChar c) (hb : Blank before) (m : Mark) (t : List Char) :
    (Cursor.mk m (name ++ (before ++ '=' :: t))).parameterName? = some name := by
  have hstop : Stops isNameChar (before ++ '=' :: t) := by
    cases before with
    | nil => exact stops_cons.mpr (by decide)
    | cons c before => exact stops_cons.mpr (by simp [isNameChar, hb c])
  have htrim : trimStart (before ++ '=' :: t) = '=' :: t :=
    hb.trimStart (stops_cons.mpr (by decide))
  simp [parameterName?, hstop.takeWhile hn, htrim, hne]

theorem skipName_append {before after : List Char} (hb : Blank before) (ha : Blank after)
    {t : List Char} (ht : Stops isSpace t) (name : List Char) (m : Mark) :
    (Cursor.mk m (name ++ (before ++ '=' :: (after ++ t)))).skipName name =
      ⟨m.past (name ++ before ++ '=' :: after), t⟩ := by
  rw [skipName, advance_append, skipSpace_append hb _ (stops_cons.mpr (by decide)), advance_cons,
    skipSpace_append ha t ht]
  simp

/-! One parameter at a time. -/

theorem arguments_atEnd {c : Cursor} (h : c.skipSpace.atTagEnd) (rule : ParamRule)
    (found : Arguments) : c.arguments rule found = .ok (found, c.skipSpace) := by
  rw [arguments]
  simp [h]

theorem arguments_positional {c d after : Cursor} (hd : c.skipSpace = d)
    (hend : d.atTagEnd = false) (hname : d.parameterName? = none) {rule : ParamRule}
    {found : Arguments} (hadmits : rule.admits found) {e : Expression}
    (he : d.expression = .ok (e, after)) :
    c.arguments rule found = after.arguments rule (found.add none e) := by
  subst hd
  rw [arguments]
  simp only [hend, hname, hadmits, Option.isNone_none, Bool.not_true, Bool.and_false,
    Bool.false_eq_true, if_false, Option.map_none]
  split
  next h => simp [hname, he] at h
  next h =>
    obtain ⟨rfl, rfl⟩ : _ = e ∧ _ = after := by simpa [hname, he, eq_comm] using h
    rfl

theorem arguments_named {c d after : Cursor} (hd : c.skipSpace = d)
    (hend : d.atTagEnd = false) {name : List Char} (hname : d.parameterName? = some name)
    {e : Expression} (he : (d.skipName name).expression = .ok (e, after)) (rule : ParamRule)
    (found : Arguments) :
    c.arguments rule found = after.arguments rule (found.add (String.ofList name) e) := by
  subst hd
  rw [arguments]
  simp only [hend, hname, Option.isNone_some, Bool.false_and, Bool.false_eq_true, if_false,
    Option.map_some]
  split
  next h => simp [hname, he] at h
  next h =>
    obtain ⟨rfl, rfl⟩ : _ = e ∧ _ = after := by simpa [hname, he, eq_comm] using h
    rfl

end Cursor

namespace Written

theorem isNameChar_of_isDigit {c : Char} (h : c.isDigit) : isNameChar c := by
  have hstops : nameStops.all fun d => !d.isDigit := by decide
  have hc : c ∉ nameStops := fun hmem => by simpa [h] using List.all_eq_true.mp hstops c hmem
  simp [isNameChar, not_isSpace_of_isDigit h, hc]

/-- A word of which a point or a slash is the first mark is no name of a parameter. -/
theorem parameterName?_word (run more : List Char) {t : List Char} (hr : ∀ c ∈ run, isNameChar c)
    (hm : ∀ c ∈ more.head?, c = '.' ∨ c = '/') (ht : Ahead t) (m : Mark) :
    (Cursor.mk m (run ++ (more ++ t))).parameterName? = none := by
  cases more with
  | nil => exact Cursor.parameterName?_eq_none run hr ht.wordEnd.stops_isNameChar ht.noEquals m
  | cons c more =>
    refine Cursor.parameterName?_eq_none run hr (stops_cons.mpr ?_) ?_ m <;>
      rcases hm c rfl with rfl | rfl
    · decide
    · decide
    · simp [trimStart, isSpace]
    · simp [trimStart, isSpace]

theorem parameterName?_expressionText {e : Expression} (he : WritableExpression e)
    {t : List Char} (ht : Ahead t) (m : Mark) :
    (Cursor.mk m (expressionText e ++ t)).parameterName? = none := by
  cases e with
  | string s =>
    exact Cursor.parameterName?_eq_none [] (by simp) (stops_cons.mpr (by decide))
      (by simp [trimStart, isSpace]) m
  | numeral n =>
    rw [expressionText]
    rcases he with rfl | rfl | ⟨w, -, hd, rfl⟩
    · exact parameterName?_word ['t', 'r', 'u', 'e'] [] (List.all_eq_true.mp (by decide)) (by simp)
        ht m
    · exact parameterName?_word ['f', 'a', 'l', 's', 'e'] [] (List.all_eq_true.mp (by decide))
        (by simp) ht m
    · have hrun : ∀ c ∈ (if w.negative then ['-'] else []) ++ w.whole, isNameChar c := by
        intro c hc
        rcases List.mem_append.mp hc with hc | hc
        · cases hneg : w.negative <;> simp only [hneg] at hc
          · simp at hc
          · obtain rfl : c = '-' := by simpa using hc
            decide
        · exact isNameChar_of_isDigit (hd c (List.mem_append_left _ hc))
      have h := parameterName?_word _ (if w.fraction.isEmpty then [] else '.' :: w.fraction) hrun
        (by split <;> simp) ht m
      simpa [DecimalWord.text] using h
  | path p =>
    obtain ⟨first, hfirst, more, hmore, hslash⟩ := pathText_append he.nonempty
    rw [expressionText, hmore, List.append_assoc]
    simp only [List.mem_cons, List.not_mem_nil, or_false] at hfirst
    rcases hfirst with rfl | rfl | rfl | rfl
    · exact Cursor.parameterName?_eq_none [] (by simp) (stops_cons.mpr (by decide))
        (by simp [trimStart, isSpace]) m
    · refine parameterName?_word ['t', 'h', 'i', 's'] more (List.all_eq_true.mp (by decide))
        (fun c hc => .inr ?_) ht m
      have := hslash rfl
      rw [Option.mem_def.mp hc] at this
      simpa using this
    · exact Cursor.parameterName?_eq_none [] (by simp) (stops_cons.mpr (by decide))
        (by simp [trimStart, isSpace]) m
    · exact Cursor.parameterName?_eq_none [] (by simp) (stops_cons.mpr (by decide))
        (by simp [trimStart, isSpace]) m

/-- What follows a parameter: further parameters, or the end of the tag. -/
theorem ParamsText.ahead {positional : List Expression} {named : List (String × Expression)}
    {params : List Char} (h : ParamsText positional named params)
    (hp : ∀ e ∈ positional, WritableExpression e) (hn : WritableNamed named)
    {after t : List Char} (ha : Blank after) (ht : TagEnd t) : Ahead (params ++ (after ++ t)) := by
  cases h with
  | nil => exact Ahead.of_end (b := after) ha ht
  | @named name e rest gap before inner text hg hb hi htext =>
    obtain ⟨hne, hchars⟩ := hn.names (name, e) (by simp)
    obtain ⟨c, word, hc⟩ := List.exists_cons_of_ne_nil (mt String.toList_eq_nil_iff.mp hne)
    have hname : isNameChar c := hchars c (by simp [hc])
    have heq : c ≠ '=' := by rintro rfl; exact absurd hname (by decide)
    simp only [hc, List.append_assoc, List.cons_append]
    exact .of_gap hg (stops_cons.mpr (not_isSpace_of_isNameChar hname)) (by simpa using heq)
  | @positional e rest named gap text hg htext =>
    obtain ⟨c, word, hc, hspace, hmarks⟩ := expressionText_eq_cons (hp e (by simp))
    have heq : c ≠ '=' := by rintro rfl; exact hmarks (by decide)
    simp only [hc, List.append_assoc, List.cons_append]
    exact .of_gap hg (stops_cons.mpr hspace) (by simpa using heq)

theorem WritableNamed.tail {entry : String × Expression} {rest : List (String × Expression)}
    (h : WritableNamed (entry :: rest)) : WritableNamed rest where
  distinct := (List.nodup_cons.mp h.distinct).2
  names x hx := h.names x (.tail _ hx)
  values x hx := h.values x (.tail _ hx)

/-- Named parameters are added to those found before, whose names are other ones. -/
theorem arguments_named_params {rest : List (String × Expression)} {params : List Char}
    (h : ParamsText [] rest params) (hn : WritableNamed rest) (rule : ParamRule)
    (before : List Expression) (found : List (String × Expression))
    (hfresh : ((found ++ rest).map (·.1)).Nodup) {after t : List Char}
    (ha : Blank after) (ht : TagEnd t) (m : Mark) :
    (Cursor.mk m (params ++ (after ++ t))).arguments rule ⟨before, ⟨found⟩⟩ =
      .ok (⟨before, ⟨found ++ rest⟩⟩, ⟨m.past (params ++ after), t⟩) := by
  induction rest generalizing params found m with
  | nil =>
    cases h
    have hskip := Cursor.skipSpace_append ha t (ht.stops (by decide) (by decide)) m
    rw [List.nil_append, Cursor.arguments_atEnd (by rw [hskip]; exact ht.atTagEnd _), hskip]
    simp
  | cons entry rest ih =>
    obtain ⟨name, e⟩ := entry
    obtain ⟨hne, hchars⟩ := hn.names (name, e) (by simp)
    have he := hn.values (name, e) (by simp)
    cases h with
    | @named _ _ _ gap pre post text hg hpre hpost htext =>
      have htail := htext.ahead (by simp) hn.tail ha ht
      obtain ⟨c, word, hc⟩ := List.exists_cons_of_ne_nil (mt String.toList_eq_nil_iff.mp hne)
      have hname : isNameChar c := hchars c (by simp [hc])
      obtain ⟨d, more, hd, hspace, -⟩ := expressionText_eq_cons he
      obtain ⟨value, hvalue⟩ : ∃ value, value = expressionText e ++ (text ++ (after ++ t)) :=
        ⟨_, rfl⟩
      have hskip := Cursor.skipSpace_append hg.2 (name.toList ++ (pre ++ '=' :: (post ++ value)))
        (by rw [hc]; exact stops_cons.mpr (not_isSpace_of_isNameChar hname)) m
      have hend : (Cursor.mk (m.past gap)
          (name.toList ++ (pre ++ '=' :: (post ++ value)))).atTagEnd = false := by
        rw [hc]
        exact not_atTagEnd (by rintro rfl; exact absurd hname (by decide))
          (by rintro rfl; exact absurd hname (by decide)) _ _
      have hparameter := Cursor.parameterName?_eq_some (mt String.toList_eq_nil_iff.mp hne) hchars
        hpre (m.past gap) (post ++ value)
      have hread := expression_text he htail.wordEnd
        ((m.past gap).past (name.toList ++ pre ++ '=' :: post))
      rw [← hvalue, ← Cursor.skipName_append hpre hpost
        (by rw [hvalue, hd]; exact stops_cons.mpr hspace)] at hread
      have hadd : (Arguments.mk before ⟨found⟩).add (String.ofList name.toList) e =
          ⟨before, ⟨found ++ [(name, e)]⟩⟩ := by
        have hnew : name ∉ found.map (·.1) := fun hmem => by
          rw [List.map_append, List.nodup_append] at hfresh
          exact hfresh.2.2 name hmem name (by simp) rfl
        simp [Arguments.add, NamedParams.insert_fresh ⟨found⟩ e hnew]
      have hrest := ih htext hn.tail (found ++ [(name, e)]) (by simpa using hfresh)
        (((m.past gap).past (name.toList ++ pre ++ '=' :: post)).past (expressionText e))
      have hstep := Cursor.arguments_named hskip hend hparameter hread rule ⟨before, ⟨found⟩⟩
      rw [hadd, hrest] at hstep
      simpa [hvalue] using hstep

/-- Reading the parameters of a tag adds them to those found before. -/
theorem arguments_params {positional : List Expression} {named : List (String × Expression)}
    {params : List Char} (h : ParamsText positional named params)
    (hp : ∀ e ∈ positional, WritableExpression e) (hn : WritableNamed named) (rule : ParamRule)
    (before : List Expression)
    (hmost : rule.most.all (before.length + positional.length ≤ ·)) {after t : List Char}
    (ha : Blank after) (ht : TagEnd t) (m : Mark) :
    (Cursor.mk m (params ++ (after ++ t))).arguments rule ⟨before, {}⟩ =
      .ok (⟨before ++ positional, ⟨named⟩⟩, ⟨m.past (params ++ after), t⟩) := by
  induction positional generalizing params before m with
  | nil =>
    simpa using arguments_named_params h hn rule before [] (by simpa using hn.distinct) ha ht m
  | cons e positional ih =>
    cases h with
    | @positional _ _ _ gap text hg htext =>
      have htail := htext.ahead (fun x hx => hp x (.tail _ hx)) hn ha ht
      have he := hp e (by simp)
      obtain ⟨c, word, hc, hspace, hmarks⟩ := expressionText_eq_cons he
      have hskip := Cursor.skipSpace_append hg.2 (expressionText e ++ (text ++ (after ++ t)))
        (by rw [hc]; exact stops_cons.mpr hspace) m
      have hend : (Cursor.mk (m.past gap) (expressionText e ++ (text ++ (after ++ t)))).atTagEnd =
          false := by
        rw [hc]
        exact not_atTagEnd (by rintro rfl; exact hmarks (by decide))
          (by rintro rfl; exact hmarks (by decide)) _ _
      have hadmits : rule.admits ⟨before, {}⟩ := by
        cases hm : rule.most with
        | none => simp [ParamRule.admits, hm, NamedParams.isEmpty]
        | some most =>
          simp only [hm, Option.all_some, decide_eq_true_eq, List.length_cons] at hmost
          simp only [ParamRule.admits, hm, NamedParams.isEmpty, List.isEmpty_nil, Bool.true_and,
            Option.all_some, decide_eq_true_eq]
          omega
      have hmost' : rule.most.all ((before ++ [e]).length + positional.length ≤ ·) := by
        simpa [Nat.add_assoc, Nat.add_comm 1] using hmost
      have hrest := ih htext (fun x hx => hp x (.tail _ hx)) (before ++ [e]) hmost'
        ((m.past gap).past (expressionText e))
      have hstep := Cursor.arguments_positional hskip hend
        (parameterName?_expressionText he htail _) hadmits (expression_text he htail.wordEnd _)
      rw [Arguments.add, hrest] at hstep
      simpa using hstep

/-! Calls. -/

theorem call_text {head : Expression} {arguments : Arguments} {call : List Char}
    (h : CallText head arguments call) (he : WritableExpression head)
    (hargs : WritableArguments arguments) {t : List Char} (ht : TagEnd t) (m : Mark) :
    (Cursor.mk m (call ++ t)).call = .ok ((head, arguments), ⟨m.past call, t⟩) := by
  obtain ⟨hb, hp, ha⟩ := h
  rename_i before params after
  obtain ⟨c, word, hc, hspace, -⟩ := expressionText_eq_cons he
  have hskip := Cursor.skipSpace_append hb (expressionText head ++ (params ++ (after ++ t)))
    (by rw [hc]; exact stops_cons.mpr hspace) m
  have hhead := expression_text he (hp.ahead hargs.positional hargs.named ha ht).wordEnd
    (m.past before)
  have hread := arguments_params hp hargs.positional hargs.named .call [] rfl ha ht
    ((m.past before).past (expressionText head))
  simp only [List.append_assoc, Cursor.call, hskip, hhead, bind, Except.bind, hread]
  simp [pure, Except.pure]

/-- A call behind its white space is a call, and starts like an expression. -/
theorem CallText.behind {head : Expression} {arguments : Arguments} {call : List Char}
    (h : CallText head arguments call) (he : WritableExpression head) :
    ∃ before inner, call = before ++ inner ∧ Blank before ∧ CallText head arguments inner ∧
      ∃ c rest, inner = c :: rest ∧ isSpace c = false ∧ c ∉ tagMarks := by
  obtain ⟨hb, hp, ha⟩ := h
  rename_i before params after
  obtain ⟨c, word, hc, hspace, hmark⟩ := expressionText_eq_cons he
  refine ⟨before, expressionText head ++ params ++ after, by simp, hb, ?_, ?_⟩
  · exact .intro Blank.nil hp ha
  · exact ⟨c, word ++ params ++ after, by simp [hc], hspace, hmark⟩

theorem blockHead_text {path : Path} {arguments : Arguments} {call : List Char}
    (h : CallText (.path path) arguments call) (hpath : WritablePath path)
    (hargs : WritableArguments arguments) {t : List Char} (ht : TagEnd t) (m : Mark) :
    (Cursor.mk m (call ++ t)).blockHead = .ok (⟨path, arguments⟩, ⟨m.past call, t⟩) := by
  obtain ⟨before, inner, rfl, hb, hinner, c, rest, hc, hspace, -⟩ := h.behind hpath
  have hskip := Cursor.skipSpace_append hb (inner ++ t)
    (by rw [hc]; exact stops_cons.mpr hspace) m
  have hcall := call_text hinner hpath hargs ht (m.past before)
  simp only [List.append_assoc, Cursor.blockHead, hskip, hcall, bind, Except.bind]
  simp [pure, Except.pure]

end Written
end Stencil
