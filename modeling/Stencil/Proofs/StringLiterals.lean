import Stencil.Proofs.ErrorLocation
import Stencil.Proofs.NormalForm.Tag
import Mathlib.Data.Set.Function

/-!
String literals as a code. Inside quotes a backslash stands before every quote and before nothing
else, so the strings that do not end in a backslash and the texts of literals determine each other.
-/
namespace Stencil

open Written

/-- The text of a string in quotes. -/
def literalText (quote : Char) (s : String) : List Char :=
  quote :: encodeQuote quote s.toList ++ [quote]

/-- A quote that ends the string before it: no backslash stands before it. -/
def ClosesQuote (quote : Char) (text : List Char) : Prop :=
  ∃ before after, text = before ++ quote :: after ∧ before.getLast? ≠ some '\\'

/-- A text that is one literal. -/
def IsLiteral (quote : Char) (text : List Char) : Prop :=
  (Cursor.start text).follows [quote] ∧
    ∃ s d, (Cursor.start text).quoted quote = .ok (s, d) ∧ d.rest = []

section
variable {quote : Char}

theorem encodeQuote_cons (quote c : Char) (text : List Char) :
    encodeQuote quote (c :: text) =
      (if c = quote then ['\\', quote] else [c]) ++ encodeQuote quote text :=
  List.flatMap_cons

/-- What is read up to a closing quote is the code of its value. -/
theorem eq_encodeQuote_of_quotedString? {text value rest : List Char}
    (h : quotedString? quote text = some (value, rest)) :
    text = encodeQuote quote value ++ quote :: rest := by
  fun_induction quotedString? quote text generalizing value with
  | case1 => cases h
  | case2 more =>
    cases h
    rfl
  | case3 hslash more ih =>
    obtain ⟨⟨inner, _⟩, hinner, hsome⟩ := Option.map_eq_some_iff.mp h
    cases hsome
    rw [encodeQuote_cons, if_pos rfl, ih hinner]
    rfl
  | case4 d more hd hslash ih =>
    obtain ⟨⟨inner, _⟩, hinner, hsome⟩ := Option.map_eq_some_iff.mp h
    cases hsome
    rw [encodeQuote_cons, if_neg hslash, ih hinner]
    rfl
  | case5 c more hescape hc ih =>
    obtain ⟨⟨inner, _⟩, hinner, hsome⟩ := Option.map_eq_some_iff.mp h
    cases hsome
    rw [encodeQuote_cons, if_neg hc, ih hinner]
    rfl

theorem getLast?_encodeQuote (hq : quote ≠ '\\') {text : List Char}
    (h : text.getLast? ≠ some '\\') : (encodeQuote quote text).getLast? ≠ some '\\' := by
  rcases List.eq_nil_or_concat' text with rfl | ⟨front, c, rfl⟩
  · exact h
  · have hc : c ≠ '\\' := by simpa using h
    rw [encodeQuote, List.flatMap_append, List.flatMap_singleton]
    split <;> simp [hq, hc]

/-! Closing quotes. -/

theorem ClosesQuote.of_cons {c : Char} {text : List Char} (h : ClosesQuote quote (c :: text))
    (hc : c ≠ quote) : ClosesQuote quote text := by
  obtain ⟨before, after, heq, hlast⟩ := h
  cases before with
  | nil => exact absurd (List.cons.inj heq).1 hc
  | cons d before =>
    obtain ⟨rfl, rfl⟩ := List.cons.inj heq
    refine ⟨before, after, rfl, fun hbefore => hlast ?_⟩
    rw [List.getLast?_cons, hbefore, Option.getD_some]

theorem ClosesQuote.of_escape (hq : quote ≠ '\\') {text : List Char}
    (h : ClosesQuote quote ('\\' :: quote :: text)) : ClosesQuote quote text := by
  obtain ⟨before, after, heq, hlast⟩ := h
  match before with
  | [] => exact absurd (List.cons.inj heq).1.symm hq
  | [d] =>
    obtain ⟨rfl, -⟩ := List.cons.inj heq
    exact absurd rfl hlast
  | d :: e :: before =>
    obtain ⟨rfl, hrest⟩ := List.cons.inj heq
    obtain ⟨rfl, rfl⟩ := List.cons.inj hrest
    refine ⟨before, after, rfl, fun hbefore => hlast ?_⟩
    rw [List.getLast?_cons, List.getLast?_cons, hbefore, Option.getD_some, Option.getD_some]

/-- A string can be read just where some quote closes it. -/
theorem exists_quotedString?_iff (hq : quote ≠ '\\') {text : List Char} :
    (∃ value rest, quotedString? quote text = some (value, rest)) ↔ ClosesQuote quote text := by
  constructor
  · rintro ⟨value, rest, h⟩
    exact ⟨_, rest, eq_encodeQuote_of_quotedString? h,
      getLast?_encodeQuote hq (quotedString?_getLast hq h)⟩
  · intro h
    fun_induction quotedString? quote text with
    | case1 =>
      obtain ⟨before, after, heq, -⟩ := h
      simp at heq
    | case2 more => exact ⟨[], more, rfl⟩
    | case3 hslash more ih =>
      obtain ⟨value, rest, hread⟩ := ih (h.of_escape hq)
      exact ⟨_, rest, by rw [hread]; rfl⟩
    | case4 d more hd hslash ih =>
      obtain ⟨value, rest, hread⟩ := ih (h.of_cons hslash)
      exact ⟨_, rest, by rw [hread]; rfl⟩
    | case5 c more hescape hc ih =>
      obtain ⟨value, rest, hread⟩ := ih (h.of_cons hc)
      exact ⟨_, rest, by rw [hread]; rfl⟩

end

/-! Literals. -/

namespace Cursor

variable {quote : Char}

theorem quoted_literalText (hq : quote ≠ '\\') {s : String} (hs : WritableString s) (m : Mark)
    (t : List Char) :
    (Cursor.mk m (literalText quote s ++ t)).quoted quote =
      .ok (s, ⟨m.past (literalText quote s), t⟩) := quoted_encodeQuote hq hs m t

theorem eq_literalText_of_quoted (hq : quote ≠ '\\') {c d : Cursor} {s : String}
    (hopen : c.follows [quote]) (h : c.quoted quote = .ok (s, d)) :
    WritableString s ∧ c.rest = literalText quote s ++ d.rest ∧
      d.mark = c.mark.past (literalText quote s) := by
  obtain ⟨m, text⟩ := c
  obtain ⟨rest, rfl⟩ := List.isPrefixOf_iff_prefix.mp hopen
  have hs := quoted_normal hq h
  rw [quoted] at h
  split at h
  next value more hvalue =>
    have htext : [quote] ++ rest = literalText quote s ++ more := by
      have := eq_encodeQuote_of_quotedString? hvalue
      cases h
      simpa [literalText] using this
    cases h
    dsimp only
    rw [htext, reach_append]
    exact ⟨hs, rfl, rfl⟩
  next => cases h

theorem quoted_eq_error (hq : quote ≠ '\\') {c : Cursor}
    (h : ¬ ClosesQuote quote (c.rest.drop 1)) :
    c.quoted quote =
      .error ((c.advance c.rest.length).fault (.endOfText (some quote.toString))) := by
  rw [quoted]
  split
  next value rest hvalue => exact absurd ((exists_quotedString?_iff hq).mp ⟨_, _, hvalue⟩) h
  next => rfl

theorem exists_quoted_iff (hq : quote ≠ '\\') {c : Cursor} :
    (∃ s d, c.quoted quote = .ok (s, d)) ↔ ClosesQuote quote (c.rest.drop 1) := by
  rw [← exists_quotedString?_iff hq, quoted]
  constructor
  · rintro ⟨s, d, h⟩
    split at h
    next value rest hvalue => exact ⟨value, rest, hvalue⟩
    next => cases h
  · rintro ⟨value, rest, hvalue⟩
    rw [hvalue]
    exact ⟨_, _, rfl⟩

/-- An expression is a string just where a quote opens one. -/
theorem expression_eq_string {c d : Cursor} {s : String} :
    c.expression = .ok (.string s, d) ↔
      ∃ quote ∈ ['"', '\''], c.follows [quote] ∧ c.quoted quote = .ok (s, d) := by
  obtain ⟨m, text⟩ := c
  constructor
  · intro h
    cases text with
    | nil => cases h
    | cons first rest =>
      simp only [expression] at h
      split at h
      next hquote =>
        refine ⟨first, by simpa using hquote, follows_cons m first rest, ?_⟩
        split at h
        next => cases h
        next hread =>
          cases h
          exact hread
      next =>
        split at h
        next => cases h
        next => split at h <;> cases h
  · rintro ⟨quote, hquote, hopen, hread⟩
    obtain ⟨rest, rfl⟩ := List.isPrefixOf_iff_prefix.mp hopen
    have hquotes : (quote == '"' || quote == '\'') = true := by simpa using hquote
    rw [List.singleton_append] at hread ⊢
    simp only [expression, hquotes, if_true, hread]

end Cursor

theorem isLiteral_literalText {quote : Char} (hq : quote ≠ '\\') {s : String}
    (hs : WritableString s) : IsLiteral quote (literalText quote s) := by
  have hread := Cursor.quoted_literalText hq hs {} []
  rw [List.append_nil] at hread
  exact ⟨Cursor.follows_cons {} quote _, s, _, hread, rfl⟩

theorem literalText_injOn {quote : Char} (hq : quote ≠ '\\') :
    Set.InjOn (literalText quote) { s | WritableString s } := by
  intro s hs t ht heq
  have hread := Cursor.quoted_literalText hq hs {} []
  rw [heq, Cursor.quoted_literalText hq ht {} []] at hread
  cases hread
  rfl

theorem literalText_bijOn {quote : Char} (hq : quote ≠ '\\') :
    Set.BijOn (literalText quote) { s | WritableString s } { text | IsLiteral quote text } := by
  refine ⟨fun s hs => isLiteral_literalText hq hs, literalText_injOn hq, ?_⟩
  rintro text ⟨hopen, s, d, hread, hend⟩
  obtain ⟨hs, htext, -⟩ := Cursor.eq_literalText_of_quoted hq hopen hread
  rw [hend, List.append_nil] at htext
  exact ⟨s, hs, htext.symm⟩

/-- String literals are a code for the strings that do not end in a backslash, with either quote.
* Such a string in quotes is read back, wherever the literal stands and whatever follows it, and the
  line of the place behind is the one that is counted in the text.
* What is read does not end in a backslash, and exactly its literal has been consumed. So strings
  and literals correspond one to one.
* A string is read just where a quote without a backslash before it follows the first one. Where
  there is none, the text is at fault at its end.
* These are the expressions that are strings; so none of them ends in a backslash. -/
theorem string_literals :
    (∀ quote ∈ ['"', '\''],
      (∀ s : String, s.toList.getLast? ≠ some '\\' → ∀ before after : List Char,
        (Cursor.mk (Mark.past {} before) (literalText quote s ++ after)).quoted quote =
          .ok (s, ⟨Mark.locate (before ++ literalText quote s ++ after)
            (byteLength (before ++ literalText quote s)), after⟩)) ∧
      (∀ c : Cursor, c.follows [quote] → ∀ s d, c.quoted quote = .ok (s, d) →
        s.toList.getLast? ≠ some '\\' ∧ c.rest = literalText quote s ++ d.rest ∧
          d.mark = c.mark.past (literalText quote s)) ∧
      Set.BijOn (literalText quote) { s | s.toList.getLast? ≠ some '\\' }
        { text | IsLiteral quote text } ∧
      (∀ c : Cursor, (∃ s d, c.quoted quote = .ok (s, d)) ↔ ClosesQuote quote (c.rest.drop 1)) ∧
      (∀ before rest : List Char, ¬ ClosesQuote quote rest →
        (Cursor.mk (Mark.past {} before) (quote :: rest)).quoted quote =
          .error ⟨.here (Mark.locate (before ++ quote :: rest)
            (byteLength (before ++ quote :: rest))), .endOfText (some quote.toString)⟩)) ∧
    (∀ (c : Cursor) s d, c.expression = .ok (.string s, d) ↔
      ∃ quote ∈ ['"', '\''], c.follows [quote] ∧ c.quoted quote = .ok (s, d)) ∧
    ∀ s : String, s.toList.getLast? = some '\\' →
      ∀ (c : Cursor) d, c.expression ≠ .ok (.string s, d) := by
  have hquotes : ∀ quote ∈ ['"', '\''], quote ≠ '\\' := by simp
  refine ⟨fun quote hquote => ?_, fun c s d => Cursor.expression_eq_string, fun s hs c d h => ?_⟩
  · have hq := hquotes quote hquote
    refine ⟨fun s hs before after => ?_,
      fun c hopen s d h => Cursor.eq_literalText_of_quoted hq hopen h,
      literalText_bijOn hq, fun c => Cursor.exists_quoted_iff hq, fun before rest hrest => ?_⟩
    · rw [Cursor.quoted_literalText hq hs, ← Mark.past_append, Mark.past_eq_locate _ after]
    · have hmark := Mark.past_eq_locate (before ++ quote :: rest) []
      rw [List.append_nil, Mark.past_append] at hmark
      have hclose : ¬ ClosesQuote quote ((quote :: rest).drop 1) := hrest
      rw [Cursor.quoted_eq_error hq hclose, ← hmark, Cursor.fault, Cursor.advance, List.take_length]
  · obtain ⟨quote, hquote, -, hread⟩ := Cursor.expression_eq_string.mp h
    exact Cursor.quoted_normal (hquotes quote hquote) hread hs

/-- A string of quotes, backslashes and a newline behind a line break, and a text without a closing
quote. -/
theorem string_literals_lines :
    let s := "\\\\'\n\"\\'"
    let text := "'\\\\\\'\n\"\\\\''"
    literalText '\'' s = text.toList ∧
      (Cursor.mk (Mark.past {} ['\n']) (text.toList ++ ['}', '}'])).quoted '\'' =
        .ok (s, ⟨⟨12, 3, 7⟩, ['}', '}']⟩) ∧
      (Cursor.start ['"', '\\', '"', '\n']).quoted '"' =
        .error ⟨.here ⟨4, 2, 4⟩, .endOfText (some "\"")⟩ := by
  intro s text
  obtain ⟨hcode, -⟩ := string_literals
  have htext : literalText '\'' s = text.toList := by decide
  obtain ⟨hread, -⟩ := hcode '\'' (by decide)
  obtain ⟨-, -, -, -, hfails⟩ := hcode '"' (by decide)
  refine ⟨htext, ?_, hfails [] ['\\', '"', '\n'] ?_⟩
  · have h := hread s (by decide) ['\n'] ['}', '}']
    have hstop : Mark.locate (['\n'] ++ text.toList ++ ['}', '}'])
        (byteLength (['\n'] ++ text.toList)) = ⟨12, 3, 7⟩ := by decide
    rwa [htext, hstop] at h
  · rw [← exists_quotedString?_iff (by decide)]
    rintro ⟨value, rest, h⟩
    cases h

end Stencil
