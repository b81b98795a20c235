import Stencil.Proofs.Written.Parameter

/-!
Tags read back. The sign behind the opening braces tells the kind of a tag; what is read behind it
ends at the closing braces.
-/
namespace Stencil

/-- The tilde of a tag, on a side where it trims. -/
def tilde (trim : Bool) : List Char := if trim then ['~'] else []

@[simp] theorem tilde_false : tilde false = [] := rfl

@[simp] theorem tilde_true : tilde true = ['~'] := rfl

@[simp] theorem length_tilde (trim : Bool) : (tilde trim).length = trim.toNat := by
  cases trim <;> rfl

namespace Written

/-! The braces around a tag. -/

theorem closingBraces_tilde {after : List Char} (ha : Blank after) (trim : Bool) (m : Mark)
    (t : List Char) :
    (Cursor.mk m (after ++ (tilde trim ++ '}' :: '}' :: t))).closingBraces =
      .ok (trim, ⟨m.past (after ++ (tilde trim ++ ['}', '}'])), t⟩) := by
  have hstop : Stops isSpace (tilde trim ++ '}' :: '}' :: t) := by
    cases trim <;> exact stops_cons.mpr (by decide)
  have hskip := Cursor.skipSpace_append ha _ hstop m
  have hfollows :
      (Cursor.mk (m.past after) (tilde trim ++ '}' :: '}' :: t)).follows ['~'] = trim := by
    rw [Cursor.follows_singleton]
    cases trim <;> rfl
  have hmark : (Cursor.mk (m.past after) (tilde trim ++ '}' :: '}' :: t)).advance trim.toNat =
      ⟨(m.past after).past (tilde trim), '}' :: '}' :: t⟩ := by
    have := Cursor.advance_append (m.past after) (tilde trim) ('}' :: '}' :: t)
    rwa [length_tilde] at this
  have hexpect := Cursor.expect_append ((m.past after).past (tilde trim)) ['}', '}'] t
  simp only [List.cons_append, List.nil_append] at hexpect
  simp only [Cursor.closingBraces, hskip, hfollows, hmark, hexpect, bind, Except.bind, pure,
    Except.pure, Mark.past_append]

theorem closingBraces_append {after : List Char} (ha : Blank after) (m : Mark) (t : List Char) :
    (Cursor.mk m (after ++ '}' :: '}' :: t)).closingBraces =
      .ok (false, ⟨m.past (after ++ ['}', '}']), t⟩) := closingBraces_tilde ha false m t

/-- The characters that tell the kind of a tag. -/
def tagSigns : List Char := ['{', '&', '#', '^', '/', '>']

/-- The sign of a tag, and the place behind it. -/
theorem tagSign?_append {sign : Option Char} (hsign : ∀ c ∈ sign, c ∈ tagSigns) {text : List Char}
    (hfirst : sign = none → ∀ c ∈ text.head?, c ∉ '~' :: '!' :: tagSigns) (m : Mark) :
    (Cursor.mk m (sign.toList ++ text)).follows ['~'] = false ∧
      (Cursor.mk m (sign.toList ++ text)).follows ['!'] = false ∧
      (Cursor.mk m (sign.toList ++ text)).tagSign? = sign ∧
      (Cursor.mk m (sign.toList ++ text)).advance sign.isSome.toNat =
        ⟨m.past sign.toList, text⟩ := by
  simp only [Cursor.follows_singleton, Cursor.tagSign?, beq_eq_false_iff_ne, ne_eq]
  cases sign with
  | none =>
    have hmarks := hfirst rfl
    have hstay : (Cursor.mk m text).advance 0 = ⟨m, text⟩ := Cursor.advance_append m [] text
    refine ⟨fun h => ?_, fun h => ?_, ?_, hstay⟩
    · exact hmarks '~' h (by simp)
    · exact hmarks '!' h (by simp)
    · rw [Option.filter_eq_none_iff]
      intro c hc hmem
      have : c ∈ tagSigns := by simpa [tagSigns] using hmem
      exact hmarks c hc (by simp [this])
  | some c =>
    have hc : c ∈ tagSigns := hsign c rfl
    refine ⟨?_, ?_, ?_, Cursor.advance_append m [c] text⟩
    · rintro ⟨⟩
      exact absurd hc (by decide)
    · rintro ⟨⟩
      exact absurd hc (by decide)
    · exact Option.filter_eq_some_iff.mpr ⟨rfl, List.contains_iff_mem.mpr hc⟩

/-- White space is no sign. -/
theorem unsigned_blank {before : List Char} (hb : Blank before) {c : Char}
    (hc : c ∉ '~' :: '!' :: tagSigns) (t : List Char) :
    ∀ d ∈ (before ++ c :: t).head?, d ∉ '~' :: '!' :: tagSigns := by
  intro d hd
  cases before with
  | nil =>
    obtain rfl : c = d := by simpa using hd
    exact hc
  | cons b before =>
    obtain rfl : b = d := by simpa using hd
    have hspace : isSpace b := hb b (by simp)
    have hmarks : ('~' :: '!' :: tagSigns).all fun x => !isSpace x := by decide
    exact fun hmem => by simpa [hspace] using List.all_eq_true.mp hmarks b hmem

/-- A tag is its sign, where it has one, what is read behind that, and the closing braces. -/
theorem tag_signed (sign : Option Char) (hsign : ∀ c ∈ sign, c ∈ tagSigns)
    {inner after t : List Char}
    (hfirst : sign = none → ∀ c ∈ (inner ++ (after ++ '}' :: '}' :: t)).head?,
      c ∉ '~' :: '!' :: tagSigns)
    (ha : Blank after) {body : TagBody}
    (h : ∀ n, (Cursor.mk n (inner ++ (after ++ '}' :: '}' :: t))).signedBody sign =
      .ok (body, ⟨n.past inner, after ++ '}' :: '}' :: t⟩)) (m : Mark) :
    (Cursor.mk m (['{', '{'] ++ (sign.toList ++ (inner ++ (after ++ '}' :: '}' :: t))))).tag =
      .ok (⟨body, m.offset,
          m.past (['{', '{'] ++ (sign.toList ++ (inner ++ (after ++ ['}', '}'])))), false, false⟩,
        ⟨m.past (['{', '{'] ++ (sign.toList ++ (inner ++ (after ++ ['}', '}'])))), t⟩) := by
  obtain ⟨htilde, hbang, htag, hbehind⟩ := tagSign?_append hsign hfirst (m.past ['{', '{'])
  have hopen := Cursor.advance_append m ['{', '{']
    (sign.toList ++ (inner ++ (after ++ '}' :: '}' :: t)))
  simp only [List.length_cons, List.length_nil, Nat.reduceAdd] at hopen
  have hstay : (Cursor.mk (m.past ['{', '{'])
      (sign.toList ++ (inner ++ (after ++ '}' :: '}' :: t)))).advance 0 =
      ⟨m.past ['{', '{'], sign.toList ++ (inner ++ (after ++ '}' :: '}' :: t))⟩ :=
    Cursor.advance_append _ [] _
  have hclose := closingBraces_append ha (((m.past ['{', '{']).past sign.toList).past inner) t
  simp only [Cursor.tag, hopen, htilde, Bool.toNat_false, hstay, Cursor.tagBody, hbang,
    Bool.false_eq_true, if_false, htag, hbehind, h, hclose, bind, Except.bind, pure, Except.pure,
    Mark.past_append]

/-! The kinds of tags. -/

/-- A text that is read as one tag, whatever follows it, and that trims nothing. -/
def ReadAs (text : List Char) (body : TagBody) : Prop :=
  ∀ (m : Mark) (t : List Char), (Cursor.mk m (text ++ t)).tag =
    .ok (⟨body, m.offset, m.past text, false, false⟩, ⟨m.past text, t⟩)

/-- No end of a comment starts in the body and ends in the end that follows it. -/
theorem prefix_body {word : List Char} (hne : word ≠ []) (hword : '-' ∉ word)
    {c : Char} {body t : List Char}
    (h : ['-', '-'] ++ word <+: c :: body ++ ('-' :: '-' :: t)) :
    ['-', '-'] ++ word <+: c :: body := by
  rcases List.prefix_or_prefix_of_prefix h (List.prefix_append _ _) with h' | ⟨r, hr⟩
  · exact h'
  · cases r with
    | nil => simp [← hr]
    | cons d r =>
      rw [← hr, List.prefix_append_right_inj] at h
      obtain ⟨rfl, hrest⟩ := List.cons_prefix_cons.mp h
      obtain ⟨rfl, hr⟩ : c = '-' ∧ body ++ '-' :: r = '-' :: word := by simpa using hr
      cases body with
      | nil =>
        -- the second dash of the word is the first one of the end
        obtain ⟨e, word, rfl⟩ := List.exists_cons_of_ne_nil hne
        obtain rfl : r = e :: word := by simpa using hr
        obtain ⟨rfl, -⟩ := List.cons_prefix_cons.mp hrest
        simp at hword
      | cons e body =>
        obtain ⟨-, rfl⟩ : e = '-' ∧ body ++ '-' :: r = word := by simpa using hr
        simp at hword

theorem comment?_body {body : List Char} (h : WritableComment body) (t : List Char) :
    comment? ['-', '-'] (body ++ '-' :: '-' :: '}' :: '}' :: t) = some (body, false, t) := by
  induction body with
  | nil => simp [comment?, List.isPrefixOf]
  | cons c body ih =>
    have hbody : WritableComment body :=
      ⟨fun hi => h.plain (hi.trans (List.suffix_cons c body).isInfix),
        fun hi => h.trimmed (hi.trans (List.suffix_cons c body).isInfix)⟩
    have htrimmed : (['-', '-'] ++ ['~', '}', '}']).isPrefixOf
        (c :: (body ++ '-' :: '-' :: '}' :: '}' :: t)) = false := by
      rw [Bool.eq_false_iff]
      intro hp
      exact h.trimmed (prefix_body (by simp) (by simp) (List.isPrefixOf_iff_prefix.mp hp)).isInfix
    have hplain : (['-', '-'] ++ ['}', '}']).isPrefixOf
        (c :: (body ++ '-' :: '-' :: '}' :: '}' :: t)) = false := by
      rw [Bool.eq_false_iff]
      intro hp
      exact h.plain (prefix_body (by simp) (by simp) (List.isPrefixOf_iff_prefix.mp hp)).isInfix
    rw [List.cons_append, comment?]
    simp only [htrimmed, hplain, Bool.false_eq_true, if_false, ih hbody, Option.map_some]

theorem readAs_comment {body : String} (h : WritableComment body.toList) :
    ReadAs (['{', '{', '!', '-', '-'] ++ body.toList ++ ['-', '-', '}', '}'])
      (.statement (.comment body)) := by
  intro m t
  have hbody := comment?_body h t
  have hcomment : ∀ n, (Cursor.mk n
      (['-', '-'] ++ (body.toList ++ '-' :: '-' :: '}' :: '}' :: t))).commentTag =
      .ok ((.statement (.comment body), false),
        ⟨n.past (['-', '-'] ++ (body.toList ++ ['-', '-', '}', '}'])), t⟩) := by
    intro n
    have hreach := Cursor.reach_append n (['-', '-'] ++ (body.toList ++ ['-', '-', '}', '}'])) t
    simp only [List.append_assoc, List.cons_append, List.nil_append] at hreach ⊢
    have hlong : (Cursor.mk n
        ('-' :: '-' :: (body.toList ++ '-' :: '-' :: '}' :: '}' :: t))).follows ['-', '-'] = true :=
      Cursor.follows_append n ['-', '-'] _
    simp only [Cursor.commentTag, hlong, if_true, List.length_cons, List.length_nil, Nat.reduceAdd,
      List.drop_succ_cons, List.drop_zero, hbody, hreach, String.ofList_toList]
  obtain ⟨rest, hrest⟩ : ∃ rest,
      rest = ['-', '-'] ++ (body.toList ++ '-' :: '-' :: '}' :: '}' :: t) := ⟨_, rfl⟩
  have htext : ['{', '{', '!', '-', '-'] ++ body.toList ++ ['-', '-', '}', '}'] ++ t =
      ['{', '{'] ++ '!' :: rest := by simp [hrest]
  have hopen := Cursor.advance_append m ['{', '{'] ('!' :: rest)
  simp only [List.length_cons, List.length_nil, Nat.reduceAdd] at hopen
  have htilde : (Cursor.mk (m.past ['{', '{']) ('!' :: rest)).follows ['~'] = false := rfl
  have hstay : (Cursor.mk (m.past ['{', '{']) ('!' :: rest)).advance 0 =
      ⟨m.past ['{', '{'], '!' :: rest⟩ := Cursor.advance_append _ [] _
  have hread := hcomment ((m.past ['{', '{']).past ['!'])
  rw [← hrest] at hread
  rw [htext]
  simp only [Cursor.tag, hopen, htilde, Bool.toNat_false, hstay, Cursor.tagBody,
    Cursor.follows_cons, if_true, Cursor.advance_cons, hread, bind, Except.bind]
  simp [pure, Except.pure]

/-- A tag without a sign, whose call does not start like an else or another kind of tag. -/
theorem readAs_call {before inner : List Char} (hb : Blank before) {c : Char} {rest : List Char}
    (hc : inner = c :: rest) (hspace : isSpace c = false) (hmark : c ∉ tagMarks)
    {head : Expression} {arguments : Arguments}
    (hcall : ∀ n t, (Cursor.mk n (inner ++ '}' :: t)).call =
      .ok ((head, arguments), ⟨n.past inner, '}' :: t⟩)) :
    ReadAs (['{', '{'] ++ (before ++ inner) ++ ['}', '}'])
      (.statement (.tag head arguments true)) := by
  intro m t
  have hread : ∀ n, (Cursor.mk n (before ++ inner ++ ([] ++ '}' :: '}' :: t))).signedBody none =
      .ok (.statement (.tag head arguments true),
        ⟨n.past (before ++ inner), [] ++ '}' :: '}' :: t⟩) := by
    intro n
    have hskip := Cursor.skipSpace_append hb (inner ++ '}' :: '}' :: t)
      (by rw [hc]; exact stops_cons.mpr hspace) n
    have helse : (Cursor.mk (n.past before) (inner ++ '}' :: '}' :: t)).atElse = false := by
      have hne : 'e' ≠ c := by rintro rfl; exact hmark (by decide)
      simp [Cursor.atElse, Cursor.follows, List.isPrefixOf, hc, hne]
    have hcall' := hcall (n.past before) ('}' :: t)
    simp only [List.append_assoc, List.nil_append, Cursor.signedBody, hskip, helse,
      Bool.false_eq_true, if_false, Cursor.simpleTag, hcall', bind, Except.bind]
    simp [pure, Except.pure]
  have hfirst : ∀ d ∈ (before ++ inner ++ ([] ++ '}' :: '}' :: t)).head?,
      d ∉ '~' :: '!' :: tagSigns := by
    have hmarks : ('~' :: '!' :: tagSigns) ⊆ tagMarks := by simp [tagSigns, tagMarks]
    have := unsigned_blank hb (fun hmem => hmark (hmarks hmem)) (rest ++ '}' :: '}' :: t)
    simpa [hc] using this
  simpa using tag_signed none (by simp) (fun _ => hfirst) Blank.nil hread m

theorem readAs_escaped {head : Expression} {arguments : Arguments} {call : List Char}
    (h : CallText head arguments call) (he : WritableExpression head)
    (hargs : WritableArguments arguments) :
    ReadAs (['{', '{'] ++ call ++ ['}', '}']) (.statement (.tag head arguments true)) := by
  obtain ⟨before, inner, rfl, hb, hinner, c, rest, hc, hspace, hmark⟩ := h.behind he
  exact readAs_call hb hc hspace hmark fun n t => call_text hinner he hargs (TagEnd.brace t) n

theorem readAs_ampersand {head : Expression} {arguments : Arguments} {call : List Char}
    (h : CallText head arguments call) (he : WritableExpression head)
    (hargs : WritableArguments arguments) :
    ReadAs (['{', '{', '&'] ++ call ++ ['}', '}']) (.statement (.tag head arguments false)) := by
  intro m t
  have hread : ∀ n, (Cursor.mk n (call ++ ([] ++ '}' :: '}' :: t))).signedBody '&' =
      .ok (.statement (.tag head arguments false), ⟨n.past call, [] ++ '}' :: '}' :: t⟩) := by
    intro n
    have hcall := call_text h he hargs (TagEnd.brace ('}' :: t)) n
    simp [Cursor.signedBody, Cursor.simpleTag, hcall, bind, Except.bind, pure, Except.pure]
  simpa using tag_signed '&' (by simp [tagSigns]) (by simp) Blank.nil hread m

theorem readAs_braced {head : Expression} {arguments : Arguments} {call gap : List Char}
    (h : CallText head arguments call) (hg : Blank gap) (he : WritableExpression head)
    (hargs : WritableArguments arguments) :
    ReadAs (['{', '{', '{'] ++ call ++ '}' :: gap ++ ['}', '}'])
      (.statement (.tag head arguments false)) := by
  intro m t
  have hread : ∀ n, (Cursor.mk n (call ++ ['}'] ++ (gap ++ '}' :: '}' :: t))).signedBody '{' =
      .ok (.statement (.tag head arguments false),
        ⟨n.past (call ++ ['}']), gap ++ '}' :: '}' :: t⟩) := by
    intro n
    have hcall := call_text h he hargs (TagEnd.brace (gap ++ '}' :: '}' :: t)) n
    have hskip := Cursor.skipSpace_stop ('}' :: (gap ++ '}' :: '}' :: t))
      (stops_cons.mpr (by decide)) (n.past call)
    have hexpect := Cursor.expect_append (n.past call) ['}'] (gap ++ '}' :: '}' :: t)
    simp only [List.cons_append, List.nil_append] at hexpect
    simp [Cursor.signedBody, Cursor.simpleTag, hcall, hskip, hexpect, bind, Except.bind, pure,
      Except.pure]
  simpa using tag_signed '{' (by simp [tagSigns]) (by simp) hg hread m

theorem readAs_insertion {name : String} {context : Option Expression} {named : NamedParams}
    {before params after : List Char} (hb : Blank before)
    (hp : ParamsText context.toList named.entries params) (ha : Blank after)
    (hname : WritableString name) (hcontext : ∀ e ∈ context, WritableExpression e)
    (hnamed : WritableNamed named.entries) :
    ReadAs (['{', '{', '>'] ++ before ++ stringText name ++ params ++ after ++ ['}', '}'])
      (.statement (.insertion name context named)) := by
  intro m t
  have hpositional : ∀ e ∈ context.toList, WritableExpression e := fun e he =>
    hcontext e (by simpa using he)
  have hread : ∀ n, (Cursor.mk n (before ++ (stringText name ++ (params ++ after)) ++
      ([] ++ '}' :: '}' :: t))).signedBody '>' =
      .ok (.statement (.insertion name context named),
        ⟨n.past (before ++ (stringText name ++ (params ++ after))), [] ++ '}' :: '}' :: t⟩) := by
    intro n
    have hskip := Cursor.skipSpace_append hb
      (stringText name ++ (params ++ (after ++ '}' :: '}' :: t))) (stops_cons.mpr (by decide)) n
    have hquoted := quoted_stringText hname (n.past before) (params ++ (after ++ '}' :: '}' :: t))
    have hpartial : (Cursor.mk (n.past before)
        (stringText name ++ (params ++ (after ++ '}' :: '}' :: t)))).partialName =
        .ok (name,
          ⟨(n.past before).past (stringText name), params ++ (after ++ '}' :: '}' :: t)⟩) := by
      rw [Cursor.partialName, if_pos (by rw [Cursor.follows_singleton]; rfl), hquoted]
    have hmost : ParamRule.insertion.most.all
        (([] : List Expression).length + context.toList.length ≤ ·) := by cases context <;> rfl
    have harguments := arguments_params hp hpositional hnamed .insertion [] hmost ha
      (TagEnd.brace ('}' :: t)) ((n.past before).past (stringText name))
    have hhead : context.toList.head? = context := by cases context <;> rfl
    simp only [List.append_assoc, List.nil_append, Cursor.signedBody, Cursor.insertion, hskip,
      hpartial, harguments, hhead, bind, Except.bind]
    simp [pure, Except.pure]
  simpa using tag_signed '>' (by simp [tagSigns]) (by simp) Blank.nil hread m

theorem readAs_otherwise {before after : List Char} (hb : Blank before) (ha : Blank after) :
    ReadAs (['{', '{'] ++ before ++ ['e', 'l', 's', 'e'] ++ after ++ ['}', '}'])
      (.otherwise none) := by
  intro m t
  have hread : ∀ n, (Cursor.mk n (before ++ (['e', 'l', 's', 'e'] ++ after) ++
      ([] ++ '}' :: '}' :: t))).signedBody none =
      .ok (.otherwise none,
        ⟨n.past (before ++ (['e', 'l', 's', 'e'] ++ after)), [] ++ '}' :: '}' :: t⟩) := by
    intro n
    have hskip := Cursor.skipSpace_append hb (['e', 'l', 's', 'e'] ++ (after ++ '}' :: '}' :: t))
      (stops_cons.mpr (by decide)) n
    have hword := (Ahead.of_end ha (TagEnd.brace ('}' :: t))).wordEnd
    have helse : (Cursor.mk (n.past before)
        (['e', 'l', 's', 'e'] ++ (after ++ '}' :: '}' :: t))).atElse = true := by
      have hname : (after ++ '}' :: '}' :: t).head?.any isNameChar = false :=
        (Option.any_eq_false _ _).mpr hword.stops_isNameChar
      rw [Cursor.atElse, Cursor.follows_append, Bool.true_and]
      simpa only [List.cons_append, List.nil_append, List.drop_succ_cons, List.drop_zero,
        Bool.not_eq_true'] using hname
    have hbehind := Cursor.advance_append (n.past before) ['e', 'l', 's', 'e']
      (after ++ '}' :: '}' :: t)
    have hend := Cursor.skipSpace_append ha ('}' :: '}' :: t) (stops_cons.mpr (by decide))
      ((n.past before).past ['e', 'l', 's', 'e'])
    simp only [List.length_cons, List.length_nil, Nat.reduceAdd] at hbehind
    simp only [List.append_assoc, List.nil_append, Cursor.signedBody, hskip, helse, if_true,
      hbehind, hend, Cursor.elseTag, (TagEnd.brace ('}' :: t)).atTagEnd]
    simp [pure, Except.pure]
  have hfirst := unsigned_blank hb (c := 'e') (by decide)
    ('l' :: 's' :: 'e' :: (after ++ '}' :: '}' :: t))
  simpa using tag_signed none (by simp) (fun _ => by simpa using hfirst) Blank.nil
    hread m

/-- The tags of a block read back. -/
theorem BlockText.readAs {path : Path} {arguments : Arguments} {body : TagBody} {text : List Char}
    (h : BlockText path arguments body text) (hpath : WritablePath path)
    (hargs : WritableArguments arguments) : ReadAs text body := by
  intro m t
  cases h with
  | @opening call hcall =>
    have hread : ∀ n, (Cursor.mk n (call ++ ([] ++ '}' :: '}' :: t))).signedBody '#' =
        .ok (.opening false ⟨path, arguments⟩, ⟨n.past call, [] ++ '}' :: '}' :: t⟩) := by
      intro n
      have hhead := blockHead_text hcall hpath hargs (TagEnd.brace ('}' :: t)) n
      simp [Cursor.signedBody, hhead, bind, Except.bind, pure, Except.pure]
    simpa using tag_signed '#' (by simp [tagSigns]) (by simp) Blank.nil hread m
  | otherwise hb ha => exact readAs_otherwise hb ha m t
  | @closing before after hb ha =>
    have hread : ∀ n, (Cursor.mk n (before ++ pathText path.steps ++
        (after ++ '}' :: '}' :: t))).signedBody '/' =
        .ok (.closing path,
          ⟨n.past (before ++ pathText path.steps), after ++ '}' :: '}' :: t⟩) := by
      intro n
      obtain ⟨c, rest, hc, hspace, -⟩ := expressionText_eq_cons (e := .path path) hpath
      rw [expressionText] at hc
      have hskip := Cursor.skipSpace_append hb (pathText path.steps ++ (after ++ '}' :: '}' :: t))
        (by rw [hc]; exact stops_cons.mpr hspace) n
      have hend := (Ahead.of_end ha (TagEnd.brace ('}' :: t))).wordEnd
      have hread := path_pathText hpath hend (n.past before)
      simp only [List.append_assoc, Cursor.signedBody, hskip, hread, bind, Except.bind]
      simp [pure, Except.pure]
    simpa using tag_signed '/' (by simp [tagSigns]) (by simp) ha hread m

end Written
end Stencil
