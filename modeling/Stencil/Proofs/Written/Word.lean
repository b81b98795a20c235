import Stencil.Proofs.Written
import Mathlib.Data.List.Basic

/-!
Words read back. Where the text of a word is followed by a text that cannot extend it, its reader
gives the word and stops right behind it.
-/
namespace Stencil

/-- `text` does not start with a character of a class. -/
def Stops (p : Char → Bool) (text : List Char) : Prop := ∀ c ∈ text.head?, p c = false

theorem stops_cons {p : Char → Bool} {c : Char} {text : List Char} :
    Stops p (c :: text) ↔ p c = false := by simp [Stops]

theorem Stops.takeWhile {p : Char → Bool} {run stop : List Char} (h : Stops p stop)
    (hr : ∀ c ∈ run, p c) : (run ++ stop).takeWhile p = run := by
  rw [List.takeWhile_append_of_pos hr]
  cases stop with
  | nil => simp
  | cons c stop => simp [stops_cons.mp h]

theorem Stops.dropWhile {p : Char → Bool} {run stop : List Char} (h : Stops p stop)
    (hr : ∀ c ∈ run, p c) : (run ++ stop).dropWhile p = stop := by
  rw [List.dropWhile_append_of_pos hr]
  cases stop with
  | nil => rfl
  | cons c stop => simp [stops_cons.mp h]

theorem drop_length_takeWhile (p : Char → Bool) (s : List Char) :
    s.drop (s.takeWhile p).length = s.dropWhile p := by
  conv_lhs => arg 2; rw [← List.takeWhile_append_dropWhile (p := p) (l := s)]
  exact List.drop_left

theorem stops_dropWhile (p : Char → Bool) (s : List Char) : Stops p (s.dropWhile p) := by
  intro c hc
  have := List.head?_dropWhile_not p s
  rw [hc] at this
  exact this

theorem Blank.nil : Blank [] := nofun

theorem Gap.space : Gap [' '] := ⟨by simp, by simp [Blank, isSpace]⟩

theorem Blank.trimStart {b stop : List Char} (hb : Blank b) (h : Stops isSpace stop) :
    trimStart (b ++ stop) = stop := h.dropWhile hb

/-- `text` ends the word before it, whatever that is. -/
def WordEnd (text : List Char) : Prop := ∀ c ∈ text.head?, isSpace c ∨ c = '}' ∨ c = '~'

theorem not_isSpace_of_isNameChar {c : Char} (h : isNameChar c) : isSpace c = false := by
  simp only [isNameChar, Bool.and_eq_true, Bool.not_eq_true'] at h
  exact h.1

theorem not_isSpace_of_isDigit {c : Char} (h : c.isDigit) : isSpace c = false := by
  have hc : 48 ≤ c.toNat ∧ c.toNat ≤ 57 := by
    simpa [Char.isDigit, UInt32.le_iff_toNat_le] using h
  simp only [isSpace, Bool.or_eq_false_iff, Bool.and_eq_false_iff, decide_eq_false_iff_not,
    beq_eq_false_iff_ne, ne_eq]
  omega

theorem WordEnd.stops {text : List Char} (h : WordEnd text) {p : Char → Bool}
    (hs : ∀ c, isSpace c → p c = false) (hb : p '}' = false) (ht : p '~' = false) :
    Stops p text := by
  intro c hc
  rcases h c hc with h | rfl | rfl
  · exact hs c h
  · exact hb
  · exact ht

theorem WordEnd.stops_isNameChar {text : List Char} (h : WordEnd text) : Stops isNameChar text :=
  h.stops (fun c hc => by simp [isNameChar, hc]) (by decide) (by decide)

theorem WordEnd.stops_isDigit {text : List Char} (h : WordEnd text) : Stops Char.isDigit text :=
  h.stops (fun c hc => by
    by_contra hd
    simp [not_isSpace_of_isDigit (by simpa using hd)] at hc) (by decide) (by decide)

theorem WordEnd.ne {text : List Char} (h : WordEnd text) {c : Char} (hc : isSpace c = false)
    (hb : c ≠ '}') (ht : c ≠ '~') : text.head? ≠ some c := by
  intro he
  rcases h c he with h | h | h
  · simp [hc] at h
  · exact hb h
  · exact ht h

theorem WordEnd.endsNumeral {text : List Char} (h : WordEnd text) : endsNumeral text := by
  cases text with
  | nil => rfl
  | cons c text =>
    rcases h c rfl with h | rfl | rfl
    · simp [Stencil.endsNumeral, h]
    · rfl
    · rfl

namespace Cursor

@[simp] theorem advance_append (m : Mark) (s t : List Char) :
    (Cursor.mk m (s ++ t)).advance s.length = ⟨m.past s, t⟩ := by simp [advance]

@[simp] theorem advance_cons (m : Mark) (c : Char) (t : List Char) :
    (Cursor.mk m (c :: t)).advance 1 = ⟨m.past [c], t⟩ := advance_append m [c] t

@[simp] theorem reach_append (m : Mark) (s t : List Char) :
    (Cursor.mk m (s ++ t)).reach t = ⟨m.past s, t⟩ := by
  simp only [reach, List.length_append, Nat.add_sub_cancel]
  exact advance_append m s t

@[simp] theorem textTo_append (m n : Mark) (s t : List Char) :
    (Cursor.mk m (s ++ t)).textTo ⟨n, t⟩ = s := by simp [textTo]

@[simp] theorem follows_append (m : Mark) (s t : List Char) :
    (Cursor.mk m (s ++ t)).follows s = true :=
  List.isPrefixOf_iff_prefix.mpr ⟨t, rfl⟩

@[simp] theorem follows_cons (m : Mark) (c : Char) (t : List Char) :
    (Cursor.mk m (c :: t)).follows [c] = true := follows_append m [c] t

theorem follows_singleton (m : Mark) (c : Char) (t : List Char) :
    (Cursor.mk m t).follows [c] = (t.head? == some c) := by
  cases t with
  | nil => rfl
  | cons d t =>
    by_cases h : c = d
    · simp [follows, h]
    · simp [follows, List.isPrefixOf, h, Ne.symm h]

theorem skipSpace_cons {c : Char} (h : isSpace c) (m : Mark) (s : List Char) :
    (Cursor.mk m (c :: s)).skipSpace = (Cursor.mk (m.next c) s).skipSpace := by
  simp [skipSpace, advance, h]

theorem skipSpace_append {b : List Char} (hb : Blank b) (stop : List Char)
    (h : Stops isSpace stop) (m : Mark) :
    (Cursor.mk m (b ++ stop)).skipSpace = ⟨m.past b, stop⟩ := by
  simp only [skipSpace, h.takeWhile hb, advance_append]

theorem skipSpace_stop (stop : List Char) (h : Stops isSpace stop) (m : Mark) :
    (Cursor.mk m stop).skipSpace = ⟨m, stop⟩ := skipSpace_append Blank.nil stop h m

theorem expect_append (m : Mark) (s t : List Char) :
    (Cursor.mk m (s ++ t)).expect s = .ok ⟨m.past s, t⟩ := by
  simp [expect]

end Cursor

namespace Written

/-! Strings. -/

theorem quotedString?_encodeQuote {q : Char} (hq : q ≠ '\\') (s r : List Char)
    (hs : s.getLast? ≠ some '\\') :
    quotedString? q (encodeQuote q s ++ q :: r) = some (s, r) := by
  induction s with
  | nil => rw [encodeQuote, List.flatMap_nil, List.nil_append, quotedString?.eq_def]; simp
  | cons c s ih =>
    have hs' : s.getLast? ≠ some '\\' := by
      cases s with
      | nil => simp
      | cons d s => simpa using hs
    have h : encodeQuote q (c :: s) ++ q :: r =
        (if c = q then ['\\', q] else [c]) ++ (encodeQuote q s ++ q :: r) := by
      simp [encodeQuote]
    rw [h]
    by_cases hc : c = q
    · subst c
      rw [if_pos rfl, List.cons_append, List.cons_append, List.nil_append, quotedString?.eq_def]
      simp [hq.symm, ih hs']
    · rw [if_neg hc, List.cons_append, List.nil_append]
      by_cases hb : c = '\\'
      · -- the backslash is not the last character, and the next one is not written as a quote
        subst c
        obtain ⟨d, t, hd, ht⟩ : ∃ d t, encodeQuote q s ++ q :: r = d :: t ∧ d ≠ q := by
          cases s with
          | nil => simp at hs
          | cons d s =>
            by_cases hd : d = q
            · exact ⟨'\\', q :: (encodeQuote q s ++ q :: r), by simp [encodeQuote, hd], hq.symm⟩
            · exact ⟨d, encodeQuote q s ++ q :: r, by simp [encodeQuote, hd], hd⟩
        have := ih hs'
        rw [hd] at this ⊢
        rw [quotedString?.eq_def]
        simp [hc, ht, this]
      · rw [quotedString?.eq_def]
        simp [hc, hb, ih hs']

/-- A string in quotes of either kind is read to its closing quote. -/
theorem quoted_encodeQuote {q : Char} (hq : q ≠ '\\') {s : String} (hs : WritableString s)
    (m : Mark) (t : List Char) :
    let text := q :: encodeQuote q s.toList ++ [q]
    (Cursor.mk m (text ++ t)).quoted q = .ok (s, ⟨m.past text, t⟩) := by
  intro text
  have hread := quotedString?_encodeQuote hq s.toList t hs
  have htext : text ++ t = q :: (encodeQuote q s.toList ++ q :: t) := by simp [text]
  have hreach := Cursor.reach_append m text t
  rw [htext] at hreach ⊢
  simp only [Cursor.quoted, List.drop_succ_cons, List.drop_zero, hread, String.ofList_toList,
    hreach]

theorem quoted_stringText {s : String} (hs : WritableString s) (m : Mark) (t : List Char) :
    (Cursor.mk m (stringText s ++ t)).quoted '"' = .ok (s, ⟨m.past (stringText s), t⟩) :=
  quoted_encodeQuote (by decide) hs m t

/-! Numerals. -/

theorem truthWord?_append (word : List Char) (value : Int64) {t : List Char} (ht : WordEnd t) :
    truthWord? word value (word ++ t) = some (⟨.int value, true, String.ofList word⟩, t) := by
  have hp : word.isPrefixOf (word ++ t) := List.isPrefixOf_iff_prefix.mpr ⟨t, rfl⟩
  simp [truthWord?, hp, ht.endsNumeral]

theorem truthWord?_eq_none {c d : Char} (hc : c ≠ d) (word text : List Char) (value : Int64) :
    truthWord? (c :: word) value (d :: text) = none := by
  simp [truthWord?, List.isPrefixOf, hc]

theorem fractionDigits_stop {t : List Char} (ht : WordEnd t) : fractionDigits t = [] := by
  have h := ht.ne (c := '.') (by decide) (by decide) (by decide)
  unfold fractionDigits
  split
  · simp at h
  · rfl

theorem isDigit_ne {c d : Char} (h : c.isDigit) (hd : d.isDigit = false) : c ≠ d := by
  rintro rfl
  simp [hd] at h

/-- The parts of a text with a sign or without. -/
theorem ofText_signed (negative : Bool) {unsigned : List Char}
    (h : negative = false → unsigned.head? ≠ some '-') :
    DecimalWord.ofText ((if negative then ['-'] else []) ++ unsigned) =
      ⟨negative, unsigned.takeWhile Char.isDigit,
        fractionDigits (unsigned.dropWhile Char.isDigit)⟩ := by
  rw [← drop_length_takeWhile]
  cases negative with
  | true => rfl
  | false =>
    have hsign : (unsigned.head? == some '-') = false := beq_eq_false_iff_ne.mpr (h rfl)
    simp [DecimalWord.ofText, hsign]

theorem head?_digits_append {run : List Char} (hne : run ≠ []) (hd : ∀ c ∈ run, c.isDigit)
    (t : List Char) : (run ++ t).head? ≠ some '-' := by
  obtain ⟨d, run, rfl⟩ := List.exists_cons_of_ne_nil hne
  simpa using isDigit_ne (hd d (.head _)) (d := '-') (by decide)

/-- The parts of a decimal word are the longest ones of its text. -/
theorem ofText_text {w : DecimalWord} (hw : w.whole ≠ [])
    (hd : ∀ c ∈ w.whole ++ w.fraction, c.isDigit) {t : List Char} (ht : WordEnd t) :
    DecimalWord.ofText (w.text ++ t) = w := by
  obtain ⟨negative, whole, fraction⟩ := w
  simp only [List.mem_append] at hd
  have hwhole : ∀ c ∈ whole, c.isDigit := fun c hc => hd c (.inl hc)
  obtain ⟨tail, htail⟩ : ∃ tail, tail = (if fraction.isEmpty then [] else '.' :: fraction) ++ t :=
    ⟨_, rfl⟩
  have hstop : Stops Char.isDigit tail := by
    rw [htail]
    split
    · exact ht.stops_isDigit
    · exact stops_cons.mpr (by decide)
  have hfraction : fractionDigits tail = fraction := by
    rw [htail]
    split
    next h => rw [List.isEmpty_iff.mp h]; exact fractionDigits_stop ht
    next h => exact ht.stops_isDigit.takeWhile fun c hc => hd c (.inr hc)
  have htext : (DecimalWord.mk negative whole fraction).text ++ t =
      (if negative then ['-'] else []) ++ (whole ++ tail) := by
    simp [DecimalWord.text, htail]
  rw [htext, ofText_signed negative fun _ => head?_digits_append hw hwhole tail,
    hstop.takeWhile hwhole, hstop.dropWhile hwhole, hfraction]

theorem decimalNumeral?_text {w : DecimalWord} (hw : w.whole ≠ [])
    (hd : ∀ c ∈ w.whole ++ w.fraction, c.isDigit) {t : List Char} (ht : WordEnd t) :
    decimalNumeral? (w.text ++ t) = some (⟨w.value, false, String.ofList w.text⟩, t) := by
  have he : w.whole.isEmpty = false := by simpa using hw
  simp [decimalNumeral?, ofText_text hw hd ht, he, ht.endsNumeral]

/-- A decimal word starts with a sign or a digit. -/
theorem text_eq_cons {w : DecimalWord} (hw : w.whole ≠ [])
    (hd : ∀ c ∈ w.whole ++ w.fraction, c.isDigit) :
    ∃ c rest, w.text = c :: rest ∧ (c = '-' ∨ c.isDigit) := by
  obtain ⟨negative, whole, fraction⟩ := w
  obtain ⟨d, whole, rfl⟩ := List.exists_cons_of_ne_nil hw
  cases negative with
  | false => exact ⟨d, _, rfl, .inr (hd d (by simp))⟩
  | true => exact ⟨'-', _, rfl, .inl rfl⟩

theorem numeral?_source {n : Numeral} (hn : WritableNumeral n) {t : List Char} (ht : WordEnd t) :
    numeral? (n.source.toList ++ t) = some (n, t) := by
  rcases hn with rfl | rfl | ⟨w, hw, hd, rfl⟩
  · change numeral? (['t', 'r', 'u', 'e'] ++ t) = _
    rw [numeral?, truthWord?_append _ _ ht]
    rfl
  · change numeral? (['f', 'a', 'l', 's', 'e'] ++ t) = _
    rw [numeral?, truthWord?_append _ _ ht]
    rfl
  · have h := decimalNumeral?_text hw hd ht
    obtain ⟨c, rest, hc, hclass⟩ := text_eq_cons hw hd
    have hne : ∀ d : Char, d ≠ '-' → d.isDigit = false → d ≠ c := by
      rintro d h1 h2 rfl
      rcases hclass with h | h
      · exact h1 h
      · simp [h2] at h
    simp only [String.toList_ofList, hc, List.cons_append] at h ⊢
    rw [numeral?, truthWord?_eq_none (hne 't' (by decide) (by decide)),
      truthWord?_eq_none (hne 'f' (by decide) (by decide)), h]
    rfl

end Written
end Stencil
