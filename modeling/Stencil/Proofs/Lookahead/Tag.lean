import Stencil.Proofs.Lookahead
import Stencil.Proofs.Written.Tag

/-!
Tags read wherever they stand. A whole tag ends with its braces, and so is read the same before any
text; a tilde at its ends is told apart from its words, which are read the same with and without it.
-/
namespace Stencil

theorem tagEnd_tilde (trim : Bool) (t : List Char) : TagEnd (tilde trim ++ '}' :: t) := by
  cases trim
  · exact ⟨t, .inl rfl⟩
  · exact ⟨t, .inr rfl⟩

namespace Cursor

/-! The readers of tags. -/

section
variable {x y : List Char} {c c' : Cursor} (h : c.Swaps x y c')
include h

theorem Swaps.head?_any {p : Char → Bool} (hbrace : p '}' = false) (htilde : p '~' = false) :
    c'.rest.head?.any p = c.rest.head?.any p := by
  obtain ⟨s, hs, hs', -⟩ := h.shared
  rw [hs, hs']
  cases s with
  | nil =>
    obtain ⟨more, rfl⟩ := h.brace
    obtain ⟨more', rfl | rfl⟩ := h.tagEnd <;> simp [hbrace, htilde]
  | cons c s => rfl

theorem atTagEnd_eq : c'.atTagEnd = c.atTagEnd := by
  obtain ⟨s, hs, hs', htilde⟩ := h.shared
  obtain ⟨more, rfl⟩ := h.brace
  obtain ⟨m, rest⟩ := c
  obtain ⟨m', rest'⟩ := c'
  obtain rfl : rest = s ++ '}' :: more := hs
  obtain rfl : rest' = s ++ y := hs'
  rcases s with _ | ⟨first, _ | ⟨second, s⟩⟩
  · rw [List.nil_append, List.nil_append, (TagEnd.brace more).atTagEnd, h.tagEnd.atTagEnd]
  · by_cases hfirst : first = '~'
    · obtain ⟨more', rfl⟩ := htilde (by rw [hfirst]; rfl)
      simp [atTagEnd, Cursor.follows, List.isPrefixOf]
    · simp [atTagEnd, Cursor.follows, List.isPrefixOf, beq_false_of_ne (Ne.symm hfirst)]
  · simp [atTagEnd, Cursor.follows, List.isPrefixOf]

theorem parameterName?_eq : c'.parameterName? = c.parameterName? := by
  have hname := h.takeWhile (p := isNameChar) (by decide) (by decide)
  have hbehind := (h.advance_run (p := isNameChar) (by decide) (by decide)).skipSpace
  have hequals := hbehind.head?_any (p := (· == '=')) (by decide) (by decide)
  rw [hname] at hequals
  have htrim (d : Cursor) : ((trimStart d.rest).head? == some '=') =
      d.skipSpace.rest.head?.any (· == '=') := by
    rw [Cursor.skipSpace, rest_advance, drop_length_takeWhile, trimStart]
    cases (d.rest.dropWhile isSpace).head? <;> rfl
  simp only [parameterName?, hname]
  rw [← rest_advance, ← rest_advance, htrim, htrim, hequals]

theorem Swaps.skipName {name : List Char} (hx : x <:+ (c.skipName name).rest) :
    (c.skipName name).Swaps x y (c'.skipName name) := by
  have hequals : x <:+ ((c.advance name.length).skipSpace.advance 1).rest :=
    hx.trans (leadsTo_skipSpace _).suffix
  have hname : x <:+ (c.advance name.length).rest :=
    hequals.trans ((leadsTo_skipSpace _).trans (leadsTo_advance _ 1)).suffix
  exact ((h.advance hname).skipSpace.advance hequals).skipSpace

theorem carries_arguments (rule : ParamRule) (found : Arguments) :
    Carries x y (c.arguments rule found) (c'.arguments rule found) := by
  fun_induction arguments c rule found generalizing c' with
  | case1 c found d =>
    rename_i hend
    intro a e he _
    cases he
    exact ⟨_, arguments_atEnd (by rw [atTagEnd_eq h.skipSpace]; exact hend) rule _, h.skipSpace⟩
  | case2 => exact carries_error
  | case3 => exact carries_error
  | case4 c found d hend name? hadmits e after he _ =>
    rename_i ih
    intro a last hlast hx
    have hafter := hx.trans ((after.tracks_arguments _ _).leadsTo _ _ hlast).suffix
    have hspace := h.skipSpace
    have hend' : c'.skipSpace.atTagEnd = false := by simpa [atTagEnd_eq hspace] using hend
    cases hname : d.parameterName? with
    | none =>
      simp only [name?, hname, Option.elim_none, Option.map_none] at he hlast ih
      obtain ⟨after', he', hafter'⟩ := carries_expression hspace _ _ he hafter
      rw [arguments_positional rfl hend' ((parameterName?_eq hspace).trans hname)
        (by simpa [name?, hname] using hadmits) he']
      exact ih hafter' a last hlast hx
    | some name =>
      simp only [name?, hname, Option.elim_some, Option.map_some] at he hlast ih
      have hvalue := hafter.trans ((tracks_expression _).leadsTo _ _ he).suffix
      obtain ⟨after', he', hafter'⟩ :=
        carries_expression (hspace.skipName hvalue) _ _ he hafter
      rw [arguments_named rfl hend' ((parameterName?_eq hspace).trans hname) he']
      exact ih hafter' a last hlast hx

theorem carries_call : Carries x y c.call c'.call := by
  apply (carries_expression h.skipSpace).bind
  · intro head d
    refine Tracks.leadsTo ?_
    exact (d.tracks_arguments _ _).bind fun _ _ he => tracks_ok he
  · intro head d d' hd
    exact (carries_arguments hd .call {}).bind_ok fun _ => ⟨_, fun _ => ⟨rfl, rfl⟩⟩

theorem carries_simpleTag (escaped : Bool) :
    Carries x y (c.simpleTag escaped) (c'.simpleTag escaped) :=
  (carries_call h).bind_ok fun _ => ⟨_, fun _ => ⟨rfl, rfl⟩⟩

theorem carries_blockHead : Carries x y c.blockHead c'.blockHead := by
  apply (carries_call h.skipSpace).bind
  · rintro ⟨head, arguments⟩ d b e he
    cases head <;> cases he
    exact .refl d
  · rintro ⟨head, arguments⟩ d d' hd
    cases head
    · exact carries_ok hd
    · exact carries_error
    · exact carries_error

theorem carries_partialName : Carries x y c.partialName c'.partialName := by
  rw [partialName, partialName, h.follows (by decide) (by decide),
    h.follows (by decide) (by decide), h.takeWhile (by decide) (by decide)]
  split
  · exact carries_quoted h _
  · split
    · exact carries_quoted h _
    · dsimp only
      split
      · exact carries_error
      · exact carries_ok (h.advance (h.suffix_run (by decide)))

theorem carries_insertion : Carries x y c.insertion c'.insertion := by
  apply (carries_partialName h.skipSpace).bind
  · intro name d
    refine Tracks.leadsTo ?_
    exact (d.tracks_arguments _ _).bind fun _ _ he => tracks_ok he
  · intro name d d' hd
    exact (carries_arguments hd .insertion {}).bind_ok fun _ => ⟨_, fun _ => ⟨rfl, rfl⟩⟩

theorem carries_elseTag : Carries x y c.elseTag c'.elseTag := by
  rw [elseTag, elseTag, atTagEnd_eq h]
  split
  · exact carries_ok h
  · exact (carries_blockHead h).bind_ok fun _ => ⟨_, fun _ => ⟨rfl, rfl⟩⟩

theorem atElse_eq : c'.atElse = c.atElse := by
  rw [atElse, atElse, h.follows (by decide) (by decide)]
  by_cases hword : c.follows ['e', 'l', 's', 'e']
  · have hbehind := h.advance_word (by decide) hword
    have hname := hbehind.head?_any (p := isNameChar) (by decide) (by decide)
    simp only [List.length_cons, List.length_nil, Nat.reduceAdd, rest_advance] at hname
    rw [hname]
  · simp [hword]

theorem carries_signedBody (sign : Option Char) :
    Carries x y (c.signedBody sign) (c'.signedBody sign) := by
  simp only [signedBody]
  have hspace := h.skipSpace
  split
  · apply (carries_simpleTag h false).bind
    · intro body d b e he
      obtain ⟨e', hbrace, he'⟩ := exists_of_bind he
      cases he'
      exact d.leadsTo_skipSpace.trans (leadsTo_of_expect hbrace)
    · intro body d d' hd b e he hx
      obtain ⟨e', hbrace, he⟩ := exists_of_bind he
      cases he
      obtain ⟨e', hbrace', hswaps⟩ := hd.skipSpace.expect hbrace hx
      rw [hbrace']
      exact ⟨e', rfl, hswaps⟩
  · exact carries_simpleTag h false
  · exact (carries_blockHead h).bind_ok fun _ => ⟨_, fun _ => ⟨rfl, rfl⟩⟩
  · rw [atTagEnd_eq hspace]
    split
    · exact carries_ok hspace
    · exact (carries_blockHead hspace).bind_ok fun _ => ⟨_, fun _ => ⟨rfl, rfl⟩⟩
  · exact (carries_path hspace).bind_ok fun _ => ⟨_, fun _ => ⟨rfl, rfl⟩⟩
  · exact carries_insertion h
  · rw [atElse_eq hspace]
    split
    next helse =>
      have hword := hspace.advance_word (by decide) (Bool.and_eq_true_iff.mp helse).1
      exact carries_elseTag hword.skipSpace
    next => exact carries_simpleTag hspace true

theorem tagSign?_eq : c'.tagSign? = c.tagSign? := by
  obtain ⟨s, hs, hs', -⟩ := h.shared
  rw [tagSign?, tagSign?, hs, hs']
  cases s with
  | nil =>
    obtain ⟨more, rfl⟩ := h.brace
    obtain ⟨more', rfl | rfl⟩ := h.tagEnd <;> rfl
  | cons c s => rfl

end

/-! Whole tags, which end with their braces. -/

/-- A mark that may stand here, and what is behind it. -/
theorem rest_of_mark (c : Cursor) (mark : Char) :
    c.rest = (if c.follows [mark] then [mark] else []) ++
      (c.advance (c.follows [mark]).toNat).rest := by
  cases hmark : c.follows [mark] with
  | false => rfl
  | true =>
    obtain ⟨more, hmore⟩ := List.isPrefixOf_iff_prefix.mp hmark
    simp [← hmore]

theorem closingBraces_text {c d : Cursor} {trim : Bool} (hd : c.closingBraces = .ok (trim, d)) :
    ∃ b, Blank b ∧ c.rest = b ++ (tilde trim ++ '}' :: '}' :: d.rest) := by
  obtain ⟨e, hexpect, he⟩ := exists_of_bind hd
  cases he
  refine ⟨c.rest.takeWhile isSpace, List.all_eq_true.mp List.all_takeWhile, ?_⟩
  have hbehind := c.skipSpace.rest_of_mark '~'
  rw [rest_of_expect hexpect] at hbehind
  conv_lhs => rw [← List.takeWhile_append_dropWhile (p := isSpace) (l := c.rest)]
  rw [← drop_length_takeWhile, ← rest_advance]
  exact congrArg _ hbehind

/-- A comment that ends in a text is what stands before its closing braces. -/
theorem comment?_text {dashes s text rest : List Char} {trim : Bool}
    (hs : comment? dashes s = some (text, trim, rest)) :
    s = text ++ (dashes ++ (tilde trim ++ '}' :: '}' :: rest)) := by
  induction s generalizing text with
  | nil => cases hs
  | cons c s ih =>
    have hstart {word : List Char} (hw : word.isPrefixOf (c :: s)) :
        c :: s = word ++ (c :: s).drop word.length := by
      obtain ⟨more, hmore⟩ := List.isPrefixOf_iff_prefix.mp hw
      rw [← hmore, List.drop_left]
    simp only [comment?] at hs
    split at hs
    next htrimmed =>
      cases hs
      conv_lhs => rw [hstart htrimmed]
      simp
    next =>
      split at hs
      next hplain =>
        cases hs
        conv_lhs => rw [hstart hplain]
        simp
      next =>
        obtain ⟨⟨inner, trim, rest⟩, hr, hsome⟩ := Option.map_eq_some_iff.mp hs
        cases hsome
        rw [List.cons_append, ← ih hr]

/-- The end of a comment that starts before a tilde reaches to it, so it would lie in the text
before the tilde. -/
theorem prefix_of_prefix_tilde {dashes u rest : List Char} (hu : dashes.length < u.length)
    {word : List Char} (hword : word = dashes ++ ['~', '}', '}'] ∨ word = dashes ++ ['}', '}'])
    (h : word <+: u ++ '~' :: '}' :: '}' :: rest) : word <+: u := by
  obtain ⟨behind, hbehind⟩ := h
  have hlength : word.length ≤ u.length + 2 := by
    rcases hword with rfl | rfl <;> simp only [List.length_append, List.length_cons,
      List.length_nil] <;> omega
  obtain ⟨front, hfront⟩ : ['}', '}'] <:+ word := by
    rcases hword with rfl | rfl
    · exact ⟨dashes ++ ['~'], by simp⟩
    · exact ⟨dashes, rfl⟩
  rcases List.append_eq_append_iff.mp hbehind with ⟨more, rfl, -⟩ | ⟨beyond, hbeyond, hrest⟩
  · exact List.prefix_append word more
  -- what lies beyond the text is at most a tilde and a brace, and the word ends in two braces
  · rw [hbeyond, List.length_append] at hlength
    have hends := congrArg List.reverse (hfront.trans hbeyond)
    rcases beyond with _ | ⟨_, _ | ⟨_, _ | ⟨_, beyond⟩⟩⟩
    · obtain rfl : word = u := by simpa using hbeyond
      exact List.prefix_rfl
    · cases hrest
      simp at hends
    · cases hrest
      simp at hends
    · simp at hlength

/-- A comment is read the same whether or not a tilde stands before its closing braces, and
whatever follows them. -/
theorem comment?_swap {dashes text rest : List Char} {trim trim' : Bool}
    (hs : comment? dashes (text ++ (dashes ++ (tilde trim ++ '}' :: '}' :: rest))) =
      some (text, trim, rest)) (htrim : trim → trim') (rest' : List Char) :
    comment? dashes (text ++ (dashes ++ (tilde trim' ++ '}' :: '}' :: rest'))) =
      some (text, trim', rest') := by
  induction text with
  | nil =>
    obtain ⟨c, s, hcons⟩ : ∃ c s, dashes ++ (tilde trim' ++ '}' :: '}' :: rest') = c :: s := by
      cases dashes <;> cases trim' <;> exact ⟨_, _, rfl⟩
    rw [List.nil_append, hcons, comment?, ← hcons]
    cases trim' with
    | true =>
      have htext : dashes ++ (tilde true ++ '}' :: '}' :: rest') =
        (dashes ++ ['~', '}', '}']) ++ rest' := by simp
      rw [htext, List.drop_left, if_pos (List.isPrefixOf_iff_prefix.mpr (List.prefix_append _ _))]
    | false =>
      have htext : dashes ++ (tilde false ++ '}' :: '}' :: rest') =
        (dashes ++ ['}', '}']) ++ rest' := by simp
      have hplain : ¬ (dashes ++ ['~', '}', '}']).isPrefixOf (dashes ++ ['}', '}'] ++ rest') := by
        rw [List.isPrefixOf_iff_prefix, List.append_assoc, List.prefix_append_right_inj]
        simp
      rw [htext, List.drop_left, if_neg hplain,
        if_pos (List.isPrefixOf_iff_prefix.mpr (List.prefix_append _ _))]
  | cons c text ih =>
    -- no end of a comment starts at `c`, before either of the ends
    have hnot {word : List Char}
        (hword : word = dashes ++ ['~', '}', '}'] ∨ word = dashes ++ ['}', '}'])
        (h : ¬ word.isPrefixOf (c :: (text ++ (dashes ++ (tilde trim ++ '}' :: '}' :: rest))))) :
        ¬ word.isPrefixOf (c :: (text ++ (dashes ++ (tilde trim' ++ '}' :: '}' :: rest')))) := by
      rw [List.isPrefixOf_iff_prefix] at h ⊢
      intro hp
      have hlength : word.length ≤ dashes.length + 3 := by
        rcases hword with rfl | rfl <;> simp
      by_cases hsame : trim = trim'
      · subst hsame
        have hread : word <+: c :: (text ++ (dashes ++ (tilde trim ++ ['}', '}']))) := by
          refine List.prefix_of_prefix_length_le hp ⟨rest', by simp⟩ ?_
          simp only [List.length_cons, List.length_append, List.length_nil]
          omega
        refine h (hread.trans ⟨rest, by simp⟩)
      · obtain ⟨rfl, rfl⟩ : trim = false ∧ trim' = true := by
          cases trim <;> cases trim' <;> simp_all
        have hread : word <+: c :: (text ++ dashes) :=
          prefix_of_prefix_tilde (by simp only [List.length_cons, List.length_append]; omega)
            hword (by simpa using hp)
        exact h (hread.trans ⟨'}' :: '}' :: rest, by simp⟩)
    rw [List.cons_append, comment?] at hs ⊢
    split at hs
    · cases hs
    next htrimmed =>
      rw [if_neg (hnot (.inl rfl) htrimmed)]
      split at hs
      · cases hs
      next hplain =>
        obtain ⟨⟨inner, _⟩, hr, hsome⟩ := Option.map_eq_some_iff.mp hs
        cases hsome
        rw [if_neg (hnot (.inr rfl) hplain), ih hr]
        rfl

theorem commentTag_text {c d : Cursor} {body : TagBody} {trim : Bool}
    (hd : c.commentTag = .ok ((body, trim), d)) :
    (∃ s, body = .statement (.comment s)) ∧ ∃ s,
      c.rest = s ++ (tilde trim ++ '}' :: '}' :: d.rest) ∧
        ∀ (c' : Cursor) (trim' : Bool) (rest' : List Char), (trim → trim') →
          c'.rest = s ++ (tilde trim' ++ '}' :: '}' :: rest') →
          ∃ d', c'.commentTag = .ok ((body, trim'), d') ∧ d'.rest = rest' := by
  obtain ⟨m, rest⟩ := c
  obtain ⟨long, hlong⟩ : ∃ long, long = (Cursor.mk m rest).follows ['-', '-'] := ⟨_, rfl⟩
  obtain ⟨dashes, hdashes⟩ : ∃ dashes : List Char, dashes = if long then ['-', '-'] else [] :=
    ⟨_, rfl⟩
  simp only [commentTag, ← hlong, ← hdashes] at hd
  split at hd
  next text trim behind hcomment =>
    have htext := comment?_text hcomment
    have hrest : rest = dashes ++ (text ++ (dashes ++ (tilde trim ++ '}' :: '}' :: behind))) := by
      rw [← htext]
      cases long with
      | false => simp [hdashes]
      | true =>
        obtain ⟨more, rfl⟩ := List.isPrefixOf_iff_prefix.mp hlong.symm
        simp [hdashes]
    have hreach : ((Cursor.mk m rest).reach behind).rest = behind := by
      refine rest_reach ⟨dashes ++ (text ++ (dashes ++ (tilde trim ++ ['}', '}']))), ?_⟩
      rw [hrest]
      simp
    cases hd
    refine ⟨⟨_, rfl⟩, dashes ++ (text ++ dashes), by rw [hreach, hrest]; simp, ?_⟩
    rintro ⟨m', rest''⟩ trim' rest' htrim hrest'
    obtain rfl : rest'' = _ := hrest'
    have hlong' : (Cursor.mk m' (dashes ++ (text ++ dashes) ++
        (tilde trim' ++ '}' :: '}' :: rest'))).follows ['-', '-'] = long := by
      have hmarks {t : List Char} (ht : TagEnd t) : ∀ c ∈ t.head?, c ∉ ['-', '-'] := by
        obtain ⟨more, rfl | rfl⟩ := ht <;> simp
      have hsplit : rest = dashes ++ (text ++ dashes) ++ (tilde trim ++ '}' :: '}' :: behind) := by
        rw [hrest]
        simp
      rw [hlong, hsplit, Cursor.follows, Cursor.follows,
        isPrefixOf_append (hmarks (tagEnd_tilde _ _)),
        isPrefixOf_append (hmarks (tagEnd_tilde _ _))]
    rw [htext] at hcomment
    have hread := comment?_swap hcomment htrim rest'
    rw [commentTag, hlong', ← hdashes]
    simp only [List.append_assoc, List.drop_left, hread]
    refine ⟨_, rfl, ?_⟩
    exact rest_reach ⟨dashes ++ (text ++ (dashes ++ (tilde trim' ++ ['}', '}']))), by simp⟩
  next => cases hd

/-- A tag is a comment, or what its sign calls for with closing braces behind it. -/
theorem tagBody_cases {c e : Cursor} {body : TagBody} {trim : Bool}
    (he : c.tagBody = .ok ((body, trim), e)) :
    c.follows ['!'] ∧ (c.advance 1).commentTag = .ok ((body, trim), e) ∨
      c.follows ['!'] = false ∧
        ∃ d, (c.advance c.tagSign?.isSome.toNat).signedBody c.tagSign? = .ok (body, d) ∧
          d.closingBraces = .ok (trim, e) := by
  rw [tagBody] at he
  split at he
  next hmark => exact .inl ⟨hmark, he⟩
  next hmark =>
    obtain ⟨⟨body, d⟩, hbody, he⟩ := exists_of_bind he
    obtain ⟨⟨trim, e⟩, hclose, he⟩ := exists_of_bind he
    cases he
    exact .inr ⟨by simpa using hmark, d, hbody, hclose⟩

/-- What the sign of a tag calls for is read the same before other closing braces. -/
theorem tagBody_swap {c c' d : Cursor} {x y : List Char} (h : c.Swaps x y c') {body : TagBody}
    (hmark : c.follows ['!'] = false)
    (hbody : (c.advance c.tagSign?.isSome.toNat).signedBody c.tagSign? = .ok (body, d))
    {s : List Char} (hd : d.rest = s ++ x) {b rest : List Char} (hb : Blank b) {trim : Bool}
    (hend : s ++ y = b ++ (tilde trim ++ '}' :: '}' :: rest)) :
    ∃ e, c'.tagBody = .ok ((body, trim), e) ∧ e.rest = rest := by
  have hx : x <:+ d.rest := hd ▸ List.suffix_append s x
  have hadvance := h.advance (hx.trans ((tracks_signedBody _ _).leadsTo body d hbody).suffix)
  obtain ⟨⟨m, rest'⟩, hread, hswaps⟩ := carries_signedBody hadvance c.tagSign? body d hbody hx
  obtain ⟨s', hs, hs', -⟩ := hswaps.shared
  obtain rfl : s' = s := List.append_cancel_right (hs.symm.trans hd)
  obtain rfl : rest' = b ++ (tilde trim ++ '}' :: '}' :: rest) := hs'.trans hend
  refine ⟨⟨m.past (b ++ (tilde trim ++ ['}', '}'])), rest⟩, ?_, rfl⟩
  rw [tagBody, h.follows (by decide) (by decide), hmark, tagSign?_eq h]
  simp only [Bool.false_eq_true, if_false, hread]
  change ((Cursor.mk m _).closingBraces >>= fun r => pure ((body, r.1), r.2)) = _
  rw [Written.closingBraces_tilde hb]
  rfl

/-- The words of a tag, which are read the same before any text, with the tilde behind them or with
one more. -/
theorem tagBody_text {c e : Cursor} {body : TagBody} {trim : Bool}
    (he : c.tagBody = .ok ((body, trim), e)) :
    ∃ s, c.rest = s ++ (tilde trim ++ '}' :: '}' :: e.rest) ∧
      ∀ (c' : Cursor) (trim' : Bool) (rest' : List Char), (trim → trim') →
        (trim' ≠ trim → s.getLast? ≠ some '~') →
        c'.rest = s ++ (tilde trim' ++ '}' :: '}' :: rest') →
        ∃ e', c'.tagBody = .ok ((body, trim'), e') ∧ e'.rest = rest' := by
  rcases tagBody_cases he with ⟨hmark, hcomment⟩ | ⟨hmark, d, hbody, hclose⟩
  · obtain ⟨-, s, hs, hread⟩ := commentTag_text hcomment
    have hrest := c.rest_of_mark '!'
    rw [hmark] at hrest
    refine ⟨'!' :: s, hrest.trans (congrArg ('!' :: ·) hs), ?_⟩
    rintro ⟨m', rest⟩ trim' rest' htrim - hrest'
    obtain rfl : rest = '!' :: (s ++ (tilde trim' ++ '}' :: '}' :: rest')) := hrest'
    obtain ⟨e', he', hbehind⟩ := hread ⟨m'.past ['!'], _⟩ trim' rest' htrim rfl
    refine ⟨e', ?_, hbehind⟩
    rw [tagBody, follows_cons, if_pos rfl, advance_cons, he']
  · obtain ⟨b, hb, hd⟩ := closingBraces_text hclose
    obtain ⟨inner, hinner, -⟩ := (c.leadsTo_advance c.tagSign?.isSome.toNat).trans
      ((tracks_signedBody _ _).leadsTo body d hbody)
    refine ⟨inner ++ b, by rw [hinner, hd, List.append_assoc], ?_⟩
    intro c' trim' rest' htrim hlast hrest'
    cases trim with
    | false =>
      -- a tilde may come to stand between the words and the braces
      have hswaps : c.Swaps ('}' :: '}' :: e.rest) (tilde trim' ++ '}' :: '}' :: rest') c' := by
        refine ⟨⟨_, rfl⟩, tagEnd_tilde trim' _, inner ++ b, ?_, hrest', fun htilde => ?_⟩
        · rw [hinner, hd, List.append_assoc]
          rfl
        · cases trim' with
          | false => exact ⟨_, rfl⟩
          | true => exact absurd htilde (hlast (by simp))
      exact tagBody_swap hswaps hmark hbody hd hb rfl
    | true =>
      obtain rfl : trim' = true := htrim rfl
      have hswaps : c.Swaps ('}' :: '}' :: e.rest) ('}' :: '}' :: rest') c' := by
        refine ⟨⟨_, rfl⟩, .brace _, inner ++ (b ++ ['~']), ?_, ?_, fun _ => ⟨_, rfl⟩⟩
        · rw [hinner, hd]
          simp
        · rw [hrest']
          simp
      refine tagBody_swap hswaps hmark hbody (s := b ++ ['~']) ?_ hb ?_
      · rw [hd]
        simp
      · simp

/-- A tag is what stands behind its opening braces and a tilde. -/
theorem tag_cases {c d : Cursor} {t : Tag} (h : c.tag = .ok (t, d)) :
    t.trimBefore = (c.advance 2).follows ['~'] ∧
      ((c.advance 2).advance t.trimBefore.toNat).tagBody = .ok ((t.body, t.trimAfter), d) := by
  obtain ⟨⟨⟨body, trim⟩, e⟩, hbody, he⟩ := exists_of_bind h
  cases he
  exact ⟨rfl, hbody⟩

/-- A tag is read the same wherever it stands and whatever follows it, and the same but for its
sides where a tilde is put on them. -/
theorem tag_text {c d : Cursor} {t : Tag} (h : c.tag = .ok (t, d)) (hopen : c.follows ['{', '{']) :
    ∃ s, c.rest = '{' :: '{' :: (tilde t.trimBefore ++
        (s ++ (tilde t.trimAfter ++ '}' :: '}' :: d.rest))) ∧
      ∀ (m : Mark) (before after : Bool) (rest : List Char),
        (before ≠ t.trimBefore → s ≠ [] ∧ s.head? ≠ some '~') → (t.trimAfter → after) →
        (after ≠ t.trimAfter → s ≠ [] ∧ s.getLast? ≠ some '~') →
        ∃ e : Cursor, (Cursor.mk m ('{' :: '{' :: (tilde before ++
            (s ++ (tilde after ++ '}' :: '}' :: rest))))).tag =
          .ok (⟨t.body, m.offset, e.mark, before, after⟩, e) ∧ e.rest = rest := by
  obtain ⟨hbefore, hbody⟩ := tag_cases h
  obtain ⟨s, hs, hread⟩ := tagBody_text hbody
  obtain ⟨more, hmore⟩ := List.isPrefixOf_iff_prefix.mp hopen
  have hbehind : (c.advance 2).rest = more := by rw [rest_advance, ← hmore]; rfl
  have hmark := (c.advance 2).rest_of_mark '~'
  rw [← hbefore, hs, hbehind] at hmark
  refine ⟨s, by rw [← hmore, hmark]; rfl, fun m before after rest hfront hafter hend => ?_⟩
  have hnone : before = false →
      (s ++ (tilde after ++ '}' :: '}' :: rest)).head? ≠ some '~' := by
    intro hfalse
    by_cases hsame : before = t.trimBefore
    · have hnot : more.head? ≠ some '~' := by
        have hfollows := hbefore.symm.trans (hsame.symm.trans hfalse)
        obtain ⟨n, rest'⟩ := c
        rw [← hbehind]
        simpa [Cursor.advance, follows_singleton] using hfollows
      rw [← hsame, hfalse] at hmark
      rw [hmark] at hnot
      cases s with
      | nil =>
        obtain rfl : after = t.trimAfter := by
          by_contra hne
          exact (hend hne).1 rfl
        cases hafter' : t.trimAfter with
        | false => simp
        | true => simp [hafter'] at hnot
      | cons first s => exact hnot
    · obtain ⟨hne, hhead⟩ := hfront hsame
      rwa [List.head?_append_of_ne_nil _ hne]
  have hinner := advance_append m ['{', '{']
    (tilde before ++ (s ++ (tilde after ++ '}' :: '}' :: rest)))
  have hfollows : (Cursor.mk (m.past ['{', '{']) (tilde before ++
      (s ++ (tilde after ++ '}' :: '}' :: rest)))).follows ['~'] = before := by
    rw [follows_singleton]
    cases before with
    | false => simpa using hnone rfl
    | true => rfl
  have hskip := advance_append (m.past ['{', '{']) (tilde before)
    (s ++ (tilde after ++ '}' :: '}' :: rest))
  rw [length_tilde] at hskip
  obtain ⟨e, he, hrest⟩ := hread ⟨(m.past ['{', '{']).past (tilde before), _⟩ after rest hafter
    (fun hne => (hend hne).2) rfl
  refine ⟨e, ?_, hrest⟩
  simp only [List.length_cons, List.length_nil, Nat.reduceAdd, List.cons_append,
    List.nil_append] at hinner
  rw [tag]
  simp only [hinner, hfollows, hskip, he]
  rfl

end Cursor

/-! What a tag can be. -/

/-- What the words of a tag can be read as. -/
inductive TagBody.Read : TagBody → Prop
  | tag {c d head arguments escaped} : Cursor.call c = .ok ((head, arguments), d) →
      TagBody.Read (.statement (.tag head arguments escaped))
  | insertion {c d e name arguments} : Cursor.partialName c = .ok (name, d) →
      d.arguments .insertion {} = .ok (arguments, e) →
      TagBody.Read (.statement (.insertion name arguments.positional.head? arguments.named))
  | comment {text} : TagBody.Read (.statement (.comment text))
  | opening {c d inverted head} : Cursor.blockHead c = .ok (head, d) →
      TagBody.Read (.opening inverted head)
  | otherwise : TagBody.Read (.otherwise none)
  | chained {c d head} : Cursor.blockHead c = .ok (head, d) → TagBody.Read (.otherwise (some head))
  | closing {c d path} : Cursor.path c = .ok (path, d) → TagBody.Read (.closing path)

namespace Cursor

theorem read_simpleTag {c d : Cursor} {escaped : Bool} {body : TagBody}
    (h : c.simpleTag escaped = .ok (body, d)) : body.Read := by
  obtain ⟨⟨⟨head, arguments⟩, e⟩, hcall, hbody⟩ := exists_of_bind h
  cases hbody
  exact .tag hcall

theorem read_insertion {c d : Cursor} {body : TagBody} (h : c.insertion = .ok (body, d)) :
    body.Read := by
  obtain ⟨⟨name, e⟩, hname, h⟩ := exists_of_bind h
  obtain ⟨⟨arguments, f⟩, harguments, hbody⟩ := exists_of_bind h
  cases hbody
  exact .insertion hname harguments

theorem read_elseTag {c d : Cursor} {body : TagBody} (h : c.elseTag = .ok (body, d)) :
    body.Read := by
  rw [elseTag] at h
  split at h
  · cases h
    exact .otherwise
  · obtain ⟨⟨head, e⟩, hhead, hbody⟩ := exists_of_bind h
    cases hbody
    exact .chained hhead

theorem read_signedBody {c d : Cursor} {sign : Option Char} {body : TagBody}
    (h : c.signedBody sign = .ok (body, d)) : body.Read := by
  simp only [signedBody] at h
  split at h
  · obtain ⟨⟨inner, e⟩, hinner, h⟩ := exists_of_bind h
    obtain ⟨f, -, hbody⟩ := exists_of_bind h
    cases hbody
    exact read_simpleTag hinner
  · exact read_simpleTag h
  · obtain ⟨⟨head, e⟩, hhead, hbody⟩ := exists_of_bind h
    cases hbody
    exact .opening hhead
  · split at h
    · cases h
      exact .otherwise
    · obtain ⟨⟨head, e⟩, hhead, hbody⟩ := exists_of_bind h
      cases hbody
      exact .opening hhead
  · obtain ⟨⟨path, e⟩, hpath, hbody⟩ := exists_of_bind h
    cases hbody
    exact .closing hpath
  · exact read_insertion h
  · split at h
    · exact read_elseTag h
    · exact read_simpleTag h

theorem read_tagBody {c d : Cursor} {body : TagBody} {trim : Bool}
    (h : c.tagBody = .ok ((body, trim), d)) : body.Read := by
  rcases tagBody_cases h with ⟨-, hcomment⟩ | ⟨-, e, hbody, -⟩
  · obtain ⟨⟨s, rfl⟩, -⟩ := commentTag_text hcomment
    exact .comment
  · exact read_signedBody hbody

theorem read_tag {c d : Cursor} {t : Tag} (h : c.tag = .ok (t, d)) : t.body.Read :=
  read_tagBody (tag_cases h).2

end Cursor

/-- A tag that is a statement by itself is no raw text and no block. -/
def TagBody.Flat : TagBody → Prop
  | .statement s => Written.isRaw s = false ∧ s.depth = 0
  | .opening .. | .otherwise _ | .closing _ => True

theorem TagBody.Read.flat {body : TagBody} (h : body.Read) : body.Flat := by
  cases h with
  | tag | insertion | comment => exact ⟨rfl, rfl⟩
  | opening | otherwise | chained | closing => trivial

end Stencil
