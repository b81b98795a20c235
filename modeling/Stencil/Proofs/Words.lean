import Stencil.Proofs.Trimming

/-!
Tags of plain words. The grammar of `Written` puts every name in brackets; here names stand without
them as well, as authors of templates write them, one space before each parameter.
-/
namespace Stencil

open Written

/-- A word of a tag: before whatever ends it, it is read as `e` and does not name a parameter. -/
structure ReadsWord (e : Expression) (word : List Char) : Prop where
  reads : ∀ (m : Mark) (t : List Char), WordEnd t →
    (Cursor.mk m (word ++ t)).expression = .ok (e, ⟨m.past word, t⟩)
  unnamed : ∀ (m : Mark) (t : List Char), Ahead t →
    (Cursor.mk m (word ++ t)).parameterName? = none
  first : ∃ c rest, word = c :: rest ∧ isSpace c = false ∧ c ∉ ['}', '~', '=']

/-- Words as parameters, a space before each. -/
inductive ReadsWords : List Expression → List Char → Prop
  | nil : ReadsWords [] []
  | cons {e es word text} : ReadsWord e word → ReadsWords es text →
      ReadsWords (e :: es) (' ' :: word ++ text)

/-! Names. -/

theorem readsWord_expressionText {e : Expression} (he : WritableExpression e) :
    ReadsWord e (expressionText e) where
  reads m _ ht := expression_text he ht m
  unnamed m _ ht := parameterName?_expressionText he ht m
  first := by
    obtain ⟨c, rest, htext, hspace, hmarks⟩ := expressionText_eq_cons he
    refine ⟨c, rest, htext, hspace, fun hc => hmarks ?_⟩
    have hsub : ['}', '~', '='] ⊆ tagMarks := by simp [tagMarks]
    exact hsub hc

theorem numeral?_eq_none {c : Char} (hc : c ∉ ['t', 'f', '-']) (hdigit : c.isDigit = false)
    (text : List Char) : numeral? (c :: text) = none := by
  simp only [List.mem_cons, List.not_mem_nil, or_false, not_or] at hc
  obtain ⟨ht, hf, hsign⟩ := hc
  have hdecimal : decimalNumeral? (c :: text) = none := by
    have hunsigned : (c == '-') = false := beq_eq_false_iff_ne.mpr hsign
    simp [decimalNumeral?, DecimalWord.ofText, hunsigned, hdigit]
  rw [numeral?, truthWord?_eq_none (Ne.symm ht), truthWord?_eq_none (Ne.symm hf), hdecimal]
  rfl

/-- The characters of paths that belong to no name. -/
def pathMarks : List Char := ['.', '/', '@', '[']

/-- A text that starts with a run of characters of names, and goes on, if at all, with one that
belongs to no name. -/
inductive StartsWithName : List Char → Prop
  | alone {run} : run ≠ [] → (∀ c ∈ run, isNameChar c) → StartsWithName run
  | before (run) {mark rest} : (∀ c ∈ run, isNameChar c) → mark ∈ pathMarks →
      StartsWithName (run ++ mark :: rest)

theorem NameText.startsWithName {name first : List Char} (h : NameText name first)
    {rest : List PathStep} {tail : List Char} (htail : TailText rest tail) :
    StartsWithName (first ++ tail) := by
  cases h with
  | bracketed => exact .before [] (by simp) (show '[' ∈ pathMarks by simp [pathMarks])
  | bare hne hn =>
    cases htail with
    | nil =>
      rw [List.append_nil]
      exact .alone hne hn
    | cons hmark => exact .before _ hn (by rcases hmark with rfl | rfl <;> simp [pathMarks])

theorem PathText.startsWithName {steps : List PathStep} {text : List Char}
    (h : PathText steps text) : StartsWithName text := by
  have hmark {mark : Char} {rest : List Char} (h : mark ∈ pathMarks) :
      StartsWithName (mark :: rest) := .before [] (by simp) h
  cases h with
  | segments hfront hs htail =>
    cases hfront with
    | point => exact hmark (by simp [pathMarks])
    | parents hparents =>
      cases hparents with
      | succ => exact hmark (by simp [pathMarks])
      | zero =>
        cases hs with
        | field hname => exact hname.startsWithName htail
        | this =>
          have hthis : NameText _ ['t', 'h', 'i', 's'] :=
            .bare (by simp) (List.all_eq_true.mp (by decide))
          exact hthis.startsWithName htail
  | datum => exact hmark (by simp [pathMarks])
  | alone hfront =>
    cases hfront with
    | onlyPoint => exact hmark (by simp [pathMarks])
    | onlyParents hparents => cases hparents <;> exact hmark (by simp [pathMarks])

theorem StartsWithName.exists_cons {text : List Char} (h : StartsWithName text) :
    ∃ c rest, text = c :: rest ∧ (isNameChar c ∨ c ∈ pathMarks) := by
  cases h with
  | alone hne hn =>
    obtain ⟨c, rest, rfl⟩ := List.exists_cons_of_ne_nil hne
    exact ⟨c, rest, rfl, .inl (hn c (.head _))⟩
  | before run hn hmark =>
    cases run with
    | nil => exact ⟨_, _, rfl, .inr hmark⟩
    | cons c run => exact ⟨c, _, rfl, .inl (hn c (.head _))⟩

/-- Such a text names no parameter: no sign of equality comes next behind the run. -/
theorem StartsWithName.parameterName? {text : List Char} (h : StartsWithName text) {t : List Char}
    (ht : Ahead t) (m : Mark) : (Cursor.mk m (text ++ t)).parameterName? = none := by
  cases h with
  | alone _ hn => exact Cursor.parameterName?_eq_none _ hn ht.wordEnd.stops_isNameChar ht.noEquals m
  | @before run mark rest hn hmark =>
    have hclass : pathMarks.all fun c => !isNameChar c && !isSpace c && c != '=' := by decide
    have hmark := List.all_eq_true.mp hclass mark hmark
    simp only [Bool.and_eq_true, Bool.not_eq_true', bne_iff_ne] at hmark
    rw [List.append_assoc]
    refine Cursor.parameterName?_eq_none run hn (stops_cons.mpr hmark.1.1) ?_ m
    simp [trimStart, hmark]

/-- A path that does not start as a number is a word. -/
theorem PathText.readsWord {steps : List PathStep} {text : List Char} (h : PathText steps text)
    (hnumeral : ∀ t, numeral? (text ++ t) = none) :
    ReadsWord (.path ⟨steps, String.ofList text⟩) text := by
  have hname := h.startsWithName
  obtain ⟨c, rest, htext, hc⟩ := hname.exists_cons
  have hclass {d : Char} (hd : isNameChar d = false ∧ d ∉ pathMarks) : c ≠ d := by
    rintro rfl
    simp [hd] at hc
  refine ⟨fun m t ht => ?_, fun m t ht => hname.parameterName? ht m, c, rest, htext, ?_, ?_⟩
  · have hread := h.path ht m
    have hnone := hnumeral t
    have hdouble := beq_eq_false_iff_ne.mpr (hclass (d := '"') (by decide))
    have hsingle := beq_eq_false_iff_ne.mpr (hclass (d := '\'') (by decide))
    rw [htext, List.cons_append] at hread hnone ⊢
    simp only [Cursor.expression, hdouble, hsingle, Bool.or_self, Bool.false_eq_true, if_false,
      hnone, hread]
  · rcases hc with hc | hc
    · exact not_isSpace_of_isNameChar hc
    · have hspace : pathMarks.all fun c => !isSpace c := by decide
      simpa using List.all_eq_true.mp hspace c hc
  · simp only [List.mem_cons, List.not_mem_nil, or_false, not_or]
    exact ⟨hclass (by decide), hclass (by decide), hclass (by decide)⟩

section
variable {name : List Char} (hne : name ≠ []) (hn : ∀ c ∈ name, isNameChar c)
include hne hn

/-- A name that is no number and not `this` stands for a field. -/
theorem readsWord_field (hnumeral : ∀ t, numeral? (name ++ t) = none)
    (hthis : String.ofList name ≠ "this") :
    ReadsWord (.path ⟨[.field (String.ofList name)], String.ofList name⟩) name := by
  have hstep : SegmentText (.field (String.ofList name)) name :=
    .field (.bare hne hn) (by rintro rfl; exact hthis rfl)
  have hpath := PathText.segments (.parents .zero) hstep .nil
  rw [List.append_nil] at hpath
  exact hpath.readsWord hnumeral

theorem readsWord_datum : ReadsWord
    (.path ⟨[.datum (String.ofList name)], String.ofList ('@' :: name)⟩) ('@' :: name) := by
  have hpath := PathText.datum (.parents .zero) (.bare hne hn) .nil
  rw [List.append_nil] at hpath
  exact hpath.readsWord fun t => numeral?_eq_none (by decide) (by decide) (name ++ t)

end

/-! Calls. -/

theorem ReadsWord.not_atTagEnd {e : Expression} {word : List Char} (h : ReadsWord e word)
    (m : Mark) (t : List Char) : (Cursor.mk m (word ++ t)).atTagEnd = false := by
  obtain ⟨c, rest, rfl, -, hc⟩ := h.first
  exact Stencil.not_atTagEnd (by rintro rfl; simp at hc) (by rintro rfl; simp at hc) m _

theorem ReadsWord.stops {e : Expression} {word : List Char} (h : ReadsWord e word)
    (t : List Char) : Stops isSpace (word ++ t) := by
  obtain ⟨c, rest, rfl, hspace, -⟩ := h.first
  exact stops_cons.mpr hspace

theorem ReadsWords.ahead {es : List Expression} {text : List Char} (h : ReadsWords es text)
    {t : List Char} (ht : TagEnd t) : Ahead (text ++ t) := by
  cases h with
  | nil => exact Ahead.of_end Blank.nil ht
  | @cons e es word text hword htext =>
    rw [List.append_assoc, List.cons_append]
    obtain ⟨c, rest, hc, -, hmarks⟩ := hword.first
    refine Ahead.of_gap Gap.space (hword.stops _) ?_
    rw [hc]
    rintro ⟨⟩
    simp at hmarks

/-- Words are read as the parameters of a call. -/
theorem arguments_words {es : List Expression} {text : List Char} (h : ReadsWords es text)
    (before : List Expression) {t : List Char} (ht : TagEnd t) (m : Mark) :
    (Cursor.mk m (text ++ t)).arguments .call ⟨before, {}⟩ =
      .ok (⟨before ++ es, {}⟩, ⟨m.past text, t⟩) := by
  induction h generalizing before m with
  | nil =>
    have hskip := Cursor.skipSpace_append Blank.nil t (ht.stops (by decide) (by decide)) m
    rw [List.nil_append] at hskip ⊢
    rw [Cursor.arguments_atEnd (by rw [hskip]; exact ht.atTagEnd _), hskip, List.append_nil]
  | @cons e es word text hword htext ih =>
    have hskip := Cursor.skipSpace_append Gap.space.2 (word ++ (text ++ t)) (hword.stops _) m
    have hstep := Cursor.arguments_positional hskip (hword.not_atTagEnd _ _)
      (hword.unnamed _ _ (htext.ahead ht)) (show ParamRule.call.admits ⟨before, {}⟩ from rfl)
      (hword.reads _ _ (htext.ahead ht).wordEnd)
    rw [Arguments.add, ih] at hstep
    simpa using hstep

theorem call_words {e : Expression} {es : List Expression} {word text : List Char}
    (hword : ReadsWord e word) (h : ReadsWords es text) {t : List Char} (ht : TagEnd t)
    (m : Mark) :
    (Cursor.mk m (word ++ text ++ t)).call =
      .ok ((e, ⟨es, {}⟩), ⟨m.past (word ++ text), t⟩) := by
  have hskip := Cursor.skipSpace_stop (word ++ (text ++ t)) (hword.stops _) m
  have hread := hword.reads m _ (h.ahead ht).wordEnd
  have harguments := arguments_words h [] ht (m.past word)
  rw [List.append_assoc, Mark.past_append]
  simp only [Cursor.call, hskip, hread, bind, Except.bind, harguments]
  rfl

/-- The head of a block from plain words. -/
def HeadText.ofWords {path : Path} {es : List Expression} {word text : List Char}
    (hword : ReadsWord (.path path) word) (h : ReadsWords es text) : HeadText where
  text := String.ofList (word ++ text)
  head := ⟨path, ⟨es, {}⟩⟩
  reads := by
    have hcall := call_words hword h (TagEnd.brace ['}']) {}
    have hstop : Stops isSpace (word ++ text ++ ['}', '}']) := by
      rw [List.append_assoc]
      exact hword.stops _
    refine ⟨⟨({} : Mark).past (word ++ text), ['}', '}']⟩, ?_, rfl⟩
    simp only [Cursor.start, String.toList_ofList, Cursor.blockHead,
      Cursor.skipSpace_stop _ hstop, hcall, bind, Except.bind]
    rfl

/-- A tag of plain words, whose first is not the start of an else or of another kind of tag. -/
theorem plainTag_words {e : Expression} {es : List Expression} {word text : List Char}
    (hword : ReadsWord e word) (hfirst : ∀ c ∈ word.head?, c ∉ tagMarks) (h : ReadsWords es text) :
    PlainTag (['{', '{'] ++ (word ++ text) ++ ['}', '}'])
      (.statement (.tag e ⟨es, {}⟩ true)) := by
  obtain ⟨c, rest, rfl, hspace, -⟩ := hword.first
  have hread : ReadAs (['{', '{'] ++ ([] ++ (c :: rest ++ text)) ++ ['}', '}'])
      (.statement (.tag e ⟨es, {}⟩ true)) :=
    readAs_call Blank.nil rfl hspace (hfirst c rfl) fun n t =>
      call_words hword h (TagEnd.brace t) n
  exact plainTag_of_readAs hread (by simp)

theorem readsAlone_plainTag {text : List Char} {s : Statement} (h : PlainTag text (.statement s)) :
    ReadsAlone false false text s := by
  have htokens := h.tokens .nil
  rw [List.append_nil] at htokens
  have hyields := Nesting.yields_of_run (p := [s]) (flat_trimPieces htokens.flat false) rfl
  have htags := fromTagToTag_tag (plainPiece (.statement s))
  exact ⟨h.closed, _, htokens, htags, hyields⟩

/-- A tag alone is a template. -/
theorem parse_plainTag {text : String} {s : Statement} (h : PlainTag text.toList (.statement s)) :
    parse text = .ok [s] := by
  have htokens := h.tokens .nil
  rw [List.append_nil] at htokens
  exact (parse_of_tokens htokens).1 [s] rfl

theorem SectionText.parse_between (x y : SectionText) {text : String} {s : Statement}
    (h : PlainTag text.toList (.statement s)) (hs : s.Inline) :
    parse (x.text ++ text ++ y.text) = .ok (x.program ++ s :: y.program) := by
  have hx := programDepth_le_of_parse x.parses
  have hy := programDepth_le_of_parse y.parses
  have hread := (readsAlone_plainTag h).parsesTo x.closed x.parses y.parses
  rw [trimProgram_false_false, trimProgram_false_false, ParsesTo, if_pos] at hread
  · exact hread
  · rw [programDepth_append, programDepth, hs.depth]
    omega

/-- A section with a tag between two texts. -/
def SectionText.between (x y : SectionText) {text : String} {s : Statement}
    (h : PlainTag text.toList (.statement s)) (hs : s.Inline) : SectionText where
  text := x.text ++ text ++ y.text
  program := x.program ++ s :: y.program
  parses := x.parse_between y h hs
  closed := by
    rw [String.toList_append, String.toList_append]
    exact (x.closed.append h.closed).append y.closed

/-- A block with one section. -/
theorem HeadText.parsesTo_block (h : HeadText) (x : SectionText) :
    ParsesTo (h.opening ++ x.text ++ h.closing) [h.block x.program []] := by
  have hblock := readsInside_block h.plainTag_opening x.readsInside
    (endsBlock_closing h.plainTag_closing)
  exact ReadsInside.parsesTo (by simpa [HeadText.block, Nesting.blockOf] using hblock)

end Stencil
