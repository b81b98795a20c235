import Stencil.Proofs.Places
import Stencil.Proofs.Written.Parameter

/-!
How far reading looks ahead. A reader that stops before the end of a tag has not looked beyond the
brace or the tilde there, so it reads the same wherever it starts, whatever text comes after, and
whether or not a tilde stands before the braces.
-/
namespace Stencil

/-! Runs of characters, before a text that ends them. -/

section
variable {p : Char → Bool} {t : List Char}

theorem Stops.takeWhile_append (h : Stops p t) (s : List Char) :
    (s ++ t).takeWhile p = s.takeWhile p := by
  have hnil : t.takeWhile p = [] := by
    cases t with
    | nil => rfl
    | cons c t => simp [stops_cons.mp h]
  rw [List.takeWhile_append, hnil, List.append_nil]
  split
  next hall => exact ((List.takeWhile_prefix p).eq_of_length hall).symm
  next => rfl

/-- A run that ends in `s` ends there whatever follows. -/
theorem takeWhile_append_of_lt {s : List Char} (h : ((s ++ t).takeWhile p).length < s.length)
    (t' : List Char) : (s ++ t').takeWhile p = (s ++ t).takeWhile p := by
  have hinside : ¬ (s.takeWhile p).length = s.length := by
    intro hall
    rw [List.takeWhile_append, if_pos hall, List.length_append] at h
    omega
  rw [List.takeWhile_append, List.takeWhile_append, if_neg hinside, if_neg hinside]

theorem length_takeWhile_le (p : Char → Bool) (s : List Char) :
    (s.takeWhile p).length ≤ s.length := (List.takeWhile_prefix p).length_le

end

/-- A word whose letters do not start `t` does not reach into it. -/
theorem isPrefixOf_append {word t : List Char} (ht : ∀ c ∈ t.head?, c ∉ word) (s : List Char) :
    word.isPrefixOf (s ++ t) = word.isPrefixOf s := by
  induction word generalizing s with
  | nil => simp
  | cons c word ih =>
    cases s with
    | nil =>
      cases t with
      | nil => rfl
      | cons d t =>
        have hne : c ≠ d := fun hcd => ht d rfl (hcd ▸ List.mem_cons_self)
        simp [List.isPrefixOf, hne]
    | cons d s =>
      rw [List.cons_append, List.isPrefixOf, List.isPrefixOf,
        ih (fun c hc hmem => ht c hc (List.mem_cons_of_mem _ hmem)) s]

/-! Words. -/

theorem quotedString?_append {quote : Char} {s value rest : List Char}
    (h : quotedString? quote s = some (value, rest)) (t : List Char) :
    quotedString? quote (s ++ t) = some (value, rest ++ t) := by
  fun_induction quotedString? quote s generalizing value with
  | case1 => cases h
  | case2 more =>
    cases h
    rw [List.cons_append, quotedString?.eq_def]
    simp
  | case3 more hslash ih =>
    obtain ⟨r, hr, hvalue⟩ := Option.map_eq_some_iff.mp h
    cases hvalue
    rw [List.cons_append, List.cons_append, quotedString?.eq_def]
    simp [hslash, ih hr]
  | case4 d more hslash hd ih =>
    obtain ⟨r, hr, hvalue⟩ := Option.map_eq_some_iff.mp h
    cases hvalue
    have hmore := ih hr
    rw [List.cons_append] at hmore
    rw [List.cons_append, List.cons_append, quotedString?.eq_def]
    simp [hslash, hd, hmore]
  | case5 c more hescape hc ih =>
    obtain ⟨r, hr, hvalue⟩ := Option.map_eq_some_iff.mp h
    cases hvalue
    have hslash : c ≠ '\\' := by
      rintro rfl
      cases more with
      | nil => simp [quotedString?] at hr
      | cons d more => exact hescape d more rfl rfl
    rw [List.cons_append, quotedString?.eq_def]
    simp [hc, hslash, ih hr]

theorem exists_eq_append (front : List Char) {s t more : List Char} (h : s ++ t = front ++ more)
    (hle : t.length ≤ more.length) : ∃ s', s = front ++ s' ∧ s' ++ t = more := by
  rcases List.append_eq_append_iff.mp h with ⟨back, rfl, rfl⟩ | ⟨back, rfl, rfl⟩
  · obtain rfl : back = [] := by
      rw [List.length_append] at hle
      exact List.length_eq_zero_iff.mp (by omega)
    exact ⟨[], by simp, rfl⟩
  · exact ⟨back, rfl, rfl⟩

/-- A string that ends before `t` is a string without `t`. -/
theorem quotedString?_of_append {quote : Char} {s t value rest : List Char}
    (h : quotedString? quote (s ++ t) = some (value, rest ++ t)) :
    quotedString? quote s = some (value, rest) := by
  -- no string starts inside `t`, which remains behind it
  have hlong {full value : List Char} (h : quotedString? quote full = some (value, rest ++ t)) :
      t.length ≤ full.length := by
    have hlength := Cursor.quotedString?_length_lt h
    rw [List.length_append] at hlength
    omega
  generalize hfull : s ++ t = full at h
  fun_induction quotedString? quote full generalizing value s with
  | case1 => cases h
  | case2 more =>
    obtain ⟨rfl, rfl⟩ : value = [] ∧ more = rest ++ t := by simpa [eq_comm] using h
    obtain rfl : s = quote :: rest := List.append_cancel_right hfull
    rw [quotedString?.eq_def]
    simp
  | case3 more hslash ih =>
    obtain ⟨⟨inner, _⟩, hinner, hvalue⟩ := Option.map_eq_some_iff.mp h
    cases hvalue
    obtain ⟨s, rfl, hs⟩ := exists_eq_append ['\\', quote] hfull (hlong hinner)
    have hread := ih hs hinner
    rw [List.cons_append, List.cons_append, List.nil_append, quotedString?.eq_def]
    simp [hslash, hread]
  | case4 d more hd hslash ih =>
    obtain ⟨⟨inner, _⟩, hinner, hvalue⟩ := Option.map_eq_some_iff.mp h
    cases hvalue
    obtain ⟨s, rfl, hs⟩ := exists_eq_append ['\\'] hfull (hlong hinner)
    have hread := ih hs hinner
    obtain ⟨s, rfl⟩ : ∃ s', s = d :: s' := by
      cases s with
      | nil => cases hread
      | cons e s => cases hs; exact ⟨s, rfl⟩
    rw [List.cons_append, List.nil_append, quotedString?.eq_def]
    simp [hd, hslash, hread]
  | case5 c more hescape hc ih =>
    obtain ⟨⟨inner, _⟩, hinner, hvalue⟩ := Option.map_eq_some_iff.mp h
    cases hvalue
    obtain ⟨s, rfl, hs⟩ := exists_eq_append [c] hfull (hlong hinner)
    have hread := ih hs hinner
    have hslash : c ≠ '\\' := by
      rintro rfl
      cases more with
      | nil => cases hinner
      | cons d more => exact hescape d more rfl rfl
    rw [List.cons_append, List.nil_append, quotedString?.eq_def]
    simp [hc, hslash, hread]

theorem climb_append {t : List Char} (hdot : t.head? ≠ some '.') (hslash : t.head? ≠ some '/')
    (s : List Char) :
    climb (s ++ t) = ⟨(climb s).count, (climb s).continues, (climb s).rest ++ t⟩ := by
  fun_induction climb s with
  | case1 rest ih =>
    simp only [List.cons_append, climb, ih]
    rfl
  | case2 rest ih =>
    simp only [List.cons_append, climb, ih]
    rfl
  | case3 rest hrest hrest' =>
    have hmark {c : Char} (ht : t.head? ≠ some c) (hr : ∀ more, rest ≠ c :: more)
        (more : List Char) : rest ++ t ≠ c :: more := by
      intro h
      cases rest with
      | nil => exact ht (by rw [List.nil_append] at h; rw [h]; rfl)
      | cons d rest => exact hr rest (by cases h; rfl)
    simp only [List.cons_append]
    rw [climb]
    · exact hmark hdot hrest
    · exact hmark hslash hrest'
  | case4 s hdot' hslash' hmarker =>
    have hstart : ¬ ['.', '.'].isPrefixOf (s ++ t) := by
      rw [isPrefixOf_append (fun c hc hmem => hdot (by simp at hmem; simpa [hmem] using hc)),
        List.isPrefixOf_iff_prefix]
      rintro ⟨rest, rfl⟩
      exact hmarker rest rfl
    unfold climb
    split
    · simp_all
    · simp_all
    · simp_all
    · rfl

section
variable {t : List Char} (ht : WordEnd t)
include ht

theorem endsNumeral_append (s : List Char) : endsNumeral (s ++ t) = endsNumeral s := by
  cases s with
  | nil => exact ht.endsNumeral
  | cons c s => rfl

theorem WordEnd.notMem {word : List Char} (hw : ∀ c ∈ word, isSpace c = false ∧ c ≠ '}' ∧ c ≠ '~') :
    ∀ c ∈ t.head?, c ∉ word := by
  intro c hc hmem
  obtain ⟨hspace, hbrace, htilde⟩ := hw c hmem
  exact ht.ne hspace hbrace htilde hc

theorem truthWord?_before {word : List Char}
    (hw : ∀ c ∈ word, isSpace c = false ∧ c ≠ '}' ∧ c ≠ '~') (value : Int64) (s : List Char) :
    truthWord? word value (s ++ t) = (truthWord? word value s).map fun r => (r.1, r.2 ++ t) := by
  rw [truthWord?, truthWord?, isPrefixOf_append (ht.notMem hw)]
  by_cases hword : word.isPrefixOf s
  · obtain ⟨rest, rfl⟩ := List.isPrefixOf_iff_prefix.mp hword
    rw [List.append_assoc, List.drop_left, List.drop_left, endsNumeral_append ht]
    split
    · rfl
    · rfl
  · simp [hword]

theorem fractionDigits_append (s : List Char) : fractionDigits (s ++ t) = fractionDigits s := by
  cases s with
  | nil => exact Written.fractionDigits_stop ht
  | cons c s =>
    by_cases hc : c = '.'
    · subst hc
      exact ht.stops_isDigit.takeWhile_append s
    · have hnone (r : List Char) : fractionDigits (c :: r) = [] := by simp [fractionDigits, hc]
      rw [List.cons_append, hnone, hnone]

/-- The parts of a decimal numeral end where a word ends. -/
theorem ofText_append (s : List Char) : DecimalWord.ofText (s ++ t) = DecimalWord.ofText s := by
  have hhead : ((s ++ t).head? == some '-') = (s.head? == some '-') := by
    cases s with
    | nil => simpa using ht.ne (c := '-') (by decide) (by decide) (by decide)
    | cons c s => rfl
  have hdrop : (s ++ t).drop (s.head? == some '-').toNat =
      s.drop (s.head? == some '-').toNat ++ t := by
    apply List.drop_append_of_le_length
    cases s with
    | nil => simp
    | cons c s => exact Nat.le_trans (Bool.toNat_le _) (Nat.le_add_left 1 s.length)
  simp only [DecimalWord.ofText, hhead, hdrop]
  generalize s.drop (s.head? == some '-').toNat = unsigned
  rw [ht.stops_isDigit.takeWhile_append,
    List.drop_append_of_le_length (length_takeWhile_le Char.isDigit unsigned),
    fractionDigits_append ht]

end

/-- A text starts with the decimal numeral found in it. -/
theorem text_ofText_starts (s : List Char) : (DecimalWord.ofText s).text <+: s := by
  have hfraction (u : List Char) :
      (if (fractionDigits u).isEmpty then [] else '.' :: fractionDigits u) <+: u := by
    unfold fractionDigits
    split
    · split
      · exact List.nil_prefix
      · exact (List.prefix_cons_inj _).mpr (List.takeWhile_prefix _)
    · exact List.nil_prefix
  have hunsigned (u fraction : List Char) (h : fraction <+: u.dropWhile Char.isDigit) :
      u.takeWhile Char.isDigit ++ fraction <+: u := by
    conv_rhs => rw [← List.takeWhile_append_dropWhile (p := Char.isDigit) (l := u)]
    exact (List.prefix_append_right_inj _).mpr h
  have hsign : s = (if s.head? == some '-' then ['-'] else []) ++
      s.drop (s.head? == some '-').toNat := by
    cases s with
    | nil => rfl
    | cons c s =>
      by_cases hc : c = '-'
      · simp [hc]
      · simp [beq_false_of_ne hc]
  conv_rhs => rw [hsign]
  simp only [DecimalWord.ofText, DecimalWord.text, List.append_assoc, drop_length_takeWhile]
  exact (List.prefix_append_right_inj _).mpr (hunsigned _ _ (hfraction _))

theorem decimalNumeral?_append {t : List Char} (ht : WordEnd t) (s : List Char) :
    decimalNumeral? (s ++ t) = (decimalNumeral? s).map fun r => (r.1, r.2 ++ t) := by
  have hle := (text_ofText_starts s).length_le
  simp only [decimalNumeral?, ofText_append ht, List.drop_append_of_le_length hle,
    endsNumeral_append ht]
  split
  · rfl
  · rfl

theorem numeral?_append {t : List Char} (ht : WordEnd t) (s : List Char) :
    numeral? (s ++ t) = (numeral? s).map fun r => (r.1, r.2 ++ t) := by
  have htrue : ∀ c ∈ ['t', 'r', 'u', 'e'], isSpace c = false ∧ c ≠ '}' ∧ c ≠ '~' := by
    simp [isSpace]
  have hfalse : ∀ c ∈ ['f', 'a', 'l', 's', 'e'], isSpace c = false ∧ c ≠ '}' ∧ c ≠ '~' := by
    simp [isSpace]
  rw [numeral?, numeral?, truthWord?_before ht htrue, truthWord?_before ht hfalse,
    decimalNumeral?_append ht]
  cases truthWord? ['t', 'r', 'u', 'e'] 1 s <;> cases truthWord? ['f', 'a', 'l', 's', 'e'] 0 s <;>
    rfl

theorem quotedString?_suffix {quote : Char} {s value rest : List Char}
    (h : quotedString? quote s = some (value, rest)) : rest <:+ s := by
  fun_induction quotedString? quote s generalizing value with
  | case1 => cases h
  | case2 =>
    cases h
    exact List.suffix_cons quote _
  | case3 more _ ih =>
    obtain ⟨r, hr, hvalue⟩ := Option.map_eq_some_iff.mp h
    cases hvalue
    exact (ih hr).trans ⟨['\\', quote], rfl⟩
  | case4 d more _ _ ih =>
    obtain ⟨r, hr, hvalue⟩ := Option.map_eq_some_iff.mp h
    cases hvalue
    exact (ih hr).trans (List.suffix_cons _ _)
  | case5 c more _ _ ih =>
    obtain ⟨r, hr, hvalue⟩ := Option.map_eq_some_iff.mp h
    cases hvalue
    exact (ih hr).trans (List.suffix_cons _ _)

theorem exists_of_bind {ε α β : Type} {r : Except ε α} {f : α → Except ε β} {b : β}
    (h : (r >>= f) = .ok b) : ∃ a, r = .ok a ∧ f a = .ok b := by
  cases r with
  | error => cases h
  | ok a => exact ⟨a, rfl, h⟩

theorem TagEnd.wordEnd {t : List Char} (h : TagEnd t) : WordEnd t := by
  obtain ⟨rest, rfl | rfl⟩ := h
  · exact fun c hc => .inr (.inl (by simpa [eq_comm] using hc))
  · exact fun c hc => .inr (.inr (by simpa [eq_comm] using hc))

namespace Cursor

theorem rest_reach {c : Cursor} {rest : List Char} (h : rest <:+ c.rest) :
    (c.reach rest).rest = rest := by
  obtain ⟨m, s⟩ := c
  obtain ⟨front, rfl⟩ := h
  rw [reach_append]

/-- `c` stands before a text and then `x`, and `d`, anywhere, before the same text and then `y`.
Both `x` and `y` end a tag, and no tilde comes to stand before the one in `y`. -/
structure Swaps (x y : List Char) (c d : Cursor) : Prop where
  brace : ∃ more, x = '}' :: more
  tagEnd : TagEnd y
  shared : ∃ s, c.rest = s ++ x ∧ d.rest = s ++ y ∧
    (s.getLast? = some '~' → ∃ more, y = '}' :: more)

section
variable {x y : List Char} {c d c' d' : Cursor}

theorem Swaps.tagEnd_left (h : c.Swaps x y c') : TagEnd x := by
  obtain ⟨more, rfl⟩ := h.brace
  exact .brace more

/-- The places before a part of the shared text. -/
theorem Swaps.of_suffix (h : c.Swaps x y c') {s : List Char} (hs : s ++ x <:+ c.rest)
    (hd : d.rest = s ++ x) (hd' : d'.rest = s ++ y) : d.Swaps x y d' := by
  obtain ⟨shared, hrest, -, htilde⟩ := h.shared
  refine ⟨h.brace, h.tagEnd, s, hd, hd', fun hlast => htilde ?_⟩
  obtain ⟨front, hfront⟩ := hs
  obtain rfl : front ++ s = shared := by
    rw [← List.append_assoc, hrest] at hfront
    exact List.append_cancel_right hfront
  have hne : s ≠ [] := by
    rintro rfl
    simp at hlast
  rwa [List.getLast?_append_of_ne_nil _ hne]

theorem Swaps.advance (h : c.Swaps x y c') {n : Nat} (hn : x <:+ c.rest.drop n) :
    (c.advance n).Swaps x y (c'.advance n) := by
  obtain ⟨s, hs, hs', -⟩ := h.shared
  obtain ⟨more, hmore⟩ := h.brace
  have hle : n ≤ s.length := by
    have hlength := hn.length_le
    rw [hs, List.length_drop, List.length_append, hmore, List.length_cons] at hlength
    omega
  have hdrop : (c.advance n).rest = s.drop n ++ x := by
    rw [rest_advance, hs, List.drop_append_of_le_length hle]
  refine h.of_suffix (s := s.drop n) ?_ hdrop ?_
  · exact hdrop ▸ List.drop_suffix n c.rest
  · rw [rest_advance, hs', List.drop_append_of_le_length hle]

theorem Swaps.reach (h : c.Swaps x y c') (rest : List Char) :
    (c.reach (rest ++ x)).Swaps x y (c'.reach (rest ++ y)) := by
  obtain ⟨s, hs, hs', -⟩ := h.shared
  have hn : c'.rest.length - (rest ++ y).length = c.rest.length - (rest ++ x).length := by
    rw [hs, hs', List.length_append, List.length_append, List.length_append, List.length_append,
      Nat.add_sub_add_right, Nat.add_sub_add_right]
  rw [Cursor.reach, Cursor.reach, hn]
  refine h.advance ?_
  rw [hs, List.length_append, List.length_append, Nat.add_sub_add_right,
    List.drop_append_of_le_length (Nat.sub_le _ _)]
  exact List.suffix_append _ x

theorem Swaps.textTo (h : c.Swaps x y c') (hd : d.Swaps x y d') : c'.textTo d' = c.textTo d := by
  obtain ⟨s, hs, hs', -⟩ := h.shared
  obtain ⟨r, hr, hr', -⟩ := hd.shared
  simp only [Cursor.textTo, hs, hs', hr, hr', List.length_append, Nat.add_sub_add_right,
    List.take_append_of_le_length (Nat.sub_le s.length r.length)]

section
variable {p : Char → Bool} (h : c.Swaps x y c') (hbrace : p '}' = false) (htilde : p '~' = false)
include h hbrace

theorem Swaps.suffix_run : x <:+ c.rest.drop (c.rest.takeWhile p).length := by
  obtain ⟨s, hs, -⟩ := h.shared
  obtain ⟨more, rfl⟩ := h.brace
  have hstops : Stops p ('}' :: more) := stops_cons.mpr hbrace
  rw [hs, hstops.takeWhile_append, List.drop_append_of_le_length (length_takeWhile_le p s)]
  exact List.suffix_append _ _

include htilde

theorem Swaps.takeWhile : c'.rest.takeWhile p = c.rest.takeWhile p := by
  obtain ⟨s, hs, hs', -⟩ := h.shared
  rw [hs, hs', (h.tagEnd.stops hbrace htilde).takeWhile_append,
    (h.tagEnd_left.stops hbrace htilde).takeWhile_append]

theorem Swaps.advance_run : (c.advance (c.rest.takeWhile p).length).Swaps x y
    (c'.advance (c'.rest.takeWhile p).length) := by
  rw [h.takeWhile hbrace htilde]
  exact h.advance (h.suffix_run hbrace)

end

theorem Swaps.skipSpace (h : c.Swaps x y c') : c.skipSpace.Swaps x y c'.skipSpace :=
  h.advance_run (by decide) (by decide)

section
variable {word : List Char} (h : c.Swaps x y c') (hbrace : '}' ∉ word)
include h hbrace

theorem Swaps.suffix_word (hword : c.follows word) : x <:+ c.rest.drop word.length := by
  obtain ⟨s, hs, -⟩ := h.shared
  obtain ⟨more, hmore⟩ := h.brace
  obtain ⟨behind, hbehind⟩ := List.isPrefixOf_iff_prefix.mp hword
  rw [← hbehind, List.drop_left]
  rw [hs] at hbehind
  rcases List.append_eq_append_iff.mp hbehind with ⟨back, -, rfl⟩ | ⟨back, rfl, rfl⟩
  · exact List.suffix_append back x
  · cases back with
    | nil => exact List.suffix_rfl
    | cons c back =>
      obtain rfl : c = '}' := List.head_eq_of_cons_eq hmore
      simp at hbrace

theorem Swaps.advance_word (hword : c.follows word) :
    (c.advance word.length).Swaps x y (c'.advance word.length) :=
  h.advance (h.suffix_word hbrace hword)

theorem Swaps.follows (htilde : '~' ∉ word) : c'.follows word = c.follows word := by
  have hend {t : List Char} (ht : TagEnd t) : ∀ c ∈ t.head?, c ∉ word := by
    intro c hc
    obtain ⟨more, rfl | rfl⟩ := ht
    · obtain rfl : '}' = c := by simpa using hc
      exact hbrace
    · obtain rfl : '~' = c := by simpa using hc
      exact htilde
  obtain ⟨s, hs, hs', -⟩ := h.shared
  rw [Cursor.follows, Cursor.follows, hs, hs', isPrefixOf_append (hend h.tagEnd),
    isPrefixOf_append (hend h.tagEnd_left)]

end

theorem rest_of_expect {word : List Char} (hd : c.expect word = .ok d) :
    c.rest = word ++ d.rest := by
  simp only [Cursor.expect] at hd
  split at hd
  next hword =>
    cases hd
    obtain ⟨rest, hrest⟩ := List.isPrefixOf_iff_prefix.mp hword
    simp [← hrest]
  next => split at hd <;> cases hd

theorem Swaps.expect (h : c.Swaps x y c') {word : List Char} (hd : c.expect word = .ok d)
    (hx : x <:+ d.rest) : ∃ d', c'.expect word = .ok d' ∧ d.Swaps x y d' := by
  obtain ⟨s, hs, hs', -⟩ := h.shared
  obtain ⟨behind, hbehind⟩ := hx
  have hrest := rest_of_expect hd
  obtain ⟨m, rest⟩ := c'
  obtain rfl : s = word ++ behind := by
    rw [← hbehind, hs, ← List.append_assoc] at hrest
    exact List.append_cancel_right hrest
  obtain rfl : rest = word ++ (behind ++ y) := hs'.trans (List.append_assoc _ _ _)
  refine ⟨_, expect_append m word _, h.of_suffix (s := behind) ?_ hbehind.symm rfl⟩
  rw [hbehind, hrest]
  exact List.suffix_append word d.rest

end

/-- Where the first reading ends before `x`, the second ends with the same result before `y`. -/
def Carries {α : Type} (x y : List Char) (r r' : Except Fault (α × Cursor)) : Prop :=
  ∀ a d, r = .ok (a, d) → x <:+ d.rest → ∃ d', r' = .ok (a, d') ∧ d.Swaps x y d'

section
variable {α β : Type} {x y : List Char} {r r' : Except Fault (α × Cursor)}

theorem carries_ok {d d' : Cursor} {a : α} (h : d.Swaps x y d') :
    Carries x y (.ok (a, d)) (.ok (a, d')) := by
  intro b e he _
  cases he
  exact ⟨d', rfl, h⟩

theorem carries_error {f : Fault} : Carries x y (.error f) r' := nofun

theorem Carries.bind_ok {f g : α × Cursor → Except Fault (β × Cursor)} (h : Carries x y r r')
    (next : ∀ a, ∃ b, ∀ d, f (a, d) = .ok (b, d) ∧ g (a, d) = .ok (b, d)) :
    Carries x y (r >>= f) (r' >>= g) := by
  intro b e he hx
  cases r with
  | error => cases he
  | ok p =>
    obtain ⟨a, d⟩ := p
    obtain ⟨b', hnext⟩ := next a
    obtain ⟨rfl, rfl⟩ : b' = b ∧ d = e := by simpa using (hnext d).1.symm.trans he
    obtain ⟨d', rfl, hd'⟩ := h a d rfl hx
    exact ⟨d', (hnext d').2, hd'⟩

theorem Carries.bind {f g : α × Cursor → Except Fault (β × Cursor)} (h : Carries x y r r')
    (hf : ∀ (a : α) (d : Cursor) (b : β) (e : Cursor), f (a, d) = .ok (b, e) → d.LeadsTo e)
    (next : ∀ (a : α) (d d' : Cursor), d.Swaps x y d' → Carries x y (f (a, d)) (g (a, d'))) :
    Carries x y (r >>= f) (r' >>= g) := by
  intro b e he hx
  cases r with
  | error => cases he
  | ok p =>
    obtain ⟨a, d⟩ := p
    obtain ⟨d', rfl, hd'⟩ := h a d rfl (hx.trans (hf a d b e he).suffix)
    exact next a d d' hd' b e he hx

end

/-! The readers of words. -/

section
variable {x y : List Char} {c c' : Cursor} (h : c.Swaps x y c')
include h

theorem carries_segment : Carries x y c.segment c'.segment := by
  intro s d hs hx
  have hopen : c'.follows ['['] = c.follows ['['] := h.follows (by decide) (by decide)
  simp only [segment] at hs ⊢
  rw [hopen]
  split at hs
  next hbracket =>
    have hinner : (c.advance 1).Swaps x y (c'.advance 1) := h.advance_word (by decide) hbracket
    rw [if_pos hbracket]
    split at hs
    next hclosed =>
      cases hs
      obtain ⟨shared, hshared, hshared', -⟩ := hinner.shared
      obtain ⟨more, hmore⟩ := hinner.brace
      -- the closing bracket is part of the shared text
      have hinside : ((shared ++ x).takeWhile (· != ']')).length < shared.length := by
        have hlength := hx.length_le
        rw [rest_advance, hshared, List.length_drop, List.length_append, hmore, List.length_cons,
          ← hmore] at hlength
        omega
      have hname := takeWhile_append_of_lt hinside y
      rw [← hshared, ← hshared'] at hname
      rw [hname, if_pos]
      · exact ⟨_, rfl, hinner.advance hx⟩
      · rw [hshared', hshared, List.length_append]
        omega
    next => cases hs
  next hbracket =>
    rw [if_neg hbracket, h.takeWhile (by decide) (by decide)]
    split at hs
    next => cases hs
    next hname =>
      cases hs
      rw [if_neg hname]
      exact ⟨_, rfl, h.advance hx⟩

theorem separator?_eq_none (hd : c.separator? = none) : c'.separator? = none := by
  rw [separator?] at hd ⊢
  rw [h.follows (by decide) (by decide), h.follows (by decide) (by decide)]
  split at hd
  · cases hd
  next hnone => rw [if_neg hnone]

theorem separator?_eq_some {d : Cursor} (hd : c.separator? = some d) :
    ∃ d', c'.separator? = some d' ∧ d.Swaps x y d' := by
  rw [separator?] at hd ⊢
  rw [h.follows (by decide) (by decide), h.follows (by decide) (by decide)]
  split at hd
  next hsome =>
    cases hd
    rw [if_pos hsome]
    refine ⟨_, rfl, ?_⟩
    rcases Bool.or_eq_true_iff.mp hsome with hmark | hmark
    · exact h.advance_word (by decide) hmark
    · exact h.advance_word (by decide) hmark
  next => cases hd

theorem carries_segments : Carries x y c.segments c'.segments := by
  fun_induction segments c generalizing c' with
  | case1 => exact carries_error
  | case2 c s d hs hd =>
    intro segments e he hx
    cases he
    obtain ⟨d', hs', hd'⟩ := carries_segment h s d hs hx
    exact ⟨d', segments_last hs' (separator?_eq_none hd' hd), hd'⟩
  | case3 => exact carries_error
  | case4 c s d hs e hd _ rest last hlast ih =>
    intro segments e he hx
    cases he
    have hbehind := (leadsTo_of_separator? hd).trans ((tracks_segments _).leadsTo _ _ hlast)
    obtain ⟨d', hs', hd'⟩ := carries_segment h s d hs (hx.trans hbehind.suffix)
    obtain ⟨e', hsep, he'⟩ := separator?_eq_some hd' hd
    obtain ⟨last', hrest, hlast'⟩ := ih he' rest last hlast hx
    exact ⟨last', segments_more hs' hsep hrest, hlast'⟩

theorem Swaps.skipMark : c.skipMark.Swaps x y c'.skipMark := by
  rw [Cursor.skipMark, Cursor.skipMark, h.follows (by decide) (by decide)]
  split
  next hmark => exact h.advance_word (by decide) hmark
  next => exact h

theorem swaps_pathHead (isPrivate : Bool) :
    (c'.pathHead isPrivate).steps = (c.pathHead isPrivate).steps ∧
      (c'.pathHead isPrivate).continues = (c.pathHead isPrivate).continues ∧
      (c.pathHead isPrivate).after.Swaps x y (c'.pathHead isPrivate).after := by
  obtain ⟨s, hs, hs', -⟩ := h.shared
  have hclimb {t : List Char} (ht : TagEnd t) :
      climb (s ++ t) = ⟨(climb s).count, (climb s).continues, (climb s).rest ++ t⟩ :=
    climb_append (ht.wordEnd.ne (by decide) (by decide) (by decide))
      (ht.wordEnd.ne (by decide) (by decide) (by decide)) s
  have hreach := h.reach (climb s).rest
  simp only [pathHead, hs, hs', hclimb h.tagEnd, hclimb h.tagEnd_left]
  generalize c.reach ((climb s).rest ++ x) = d at hreach ⊢
  generalize c'.reach ((climb s).rest ++ y) = d' at hreach ⊢
  rw [hreach.follows (by decide) (by decide)]
  split
  next hpoint =>
    have hadvance : (d.advance 1).Swaps x y (d'.advance 1) :=
      hreach.advance_word (by decide) (Bool.and_eq_true_iff.mp hpoint).2
    rw [hadvance.follows (by decide) (by decide)]
    split
    next hslash => exact ⟨rfl, rfl, hadvance.advance_word (by decide) hslash⟩
    next => exact ⟨rfl, rfl, hadvance⟩
  next => exact ⟨rfl, rfl, hreach⟩

theorem carries_path : Carries x y c.path c'.path := by
  intro p d hp hx
  have hmark : c'.follows ['@'] = c.follows ['@'] := h.follows (by decide) (by decide)
  obtain ⟨isPrivate, hprivate⟩ : ∃ isPrivate, isPrivate = c.follows ['@'] := ⟨_, rfl⟩
  simp only [path, hmark, ← hprivate] at hp ⊢
  obtain ⟨hsteps, hcontinues, hhead⟩ := swaps_pathHead h.skipMark isPrivate
  rw [hsteps, hcontinues]
  split at hp
  next hmore =>
    rw [if_pos hmore]
    split at hp
    next => cases hp
    next segments e hs =>
      cases hp
      obtain ⟨d', hs', hd'⟩ := carries_segments hhead _ _ hs hx
      rw [hs']
      exact ⟨d', by simp only [h.textTo hd'], hd'⟩
  next hmore =>
    rw [if_neg hmore]
    split at hp
    next => cases hp
    next hpublic =>
      cases hp
      rw [if_neg hpublic]
      exact ⟨_, by rw [h.textTo hhead], hhead⟩

theorem carries_quoted (quote : Char) : Carries x y (c.quoted quote) (c'.quoted quote) := by
  intro text d htext hx
  obtain ⟨s, hs, hs', -⟩ := h.shared
  have hlong := length_quoted_lt htext
  simp only [quoted] at htext ⊢
  split at htext
  next value rest hvalue =>
    cases htext
    have hrest : rest <:+ c.rest :=
      (quotedString?_suffix hvalue).trans (List.drop_suffix 1 c.rest)
    rw [rest_reach hrest] at hx hlong
    obtain ⟨inner, rfl⟩ := hx
    have hne : 1 ≤ s.length := by
      rw [hs, List.length_append, List.length_append] at hlong
      omega
    rw [hs, List.drop_append_of_le_length hne] at hvalue
    rw [hs', List.drop_append_of_le_length hne,
      quotedString?_append (quotedString?_of_append hvalue)]
    exact ⟨_, rfl, h.reach inner⟩
  next => cases htext

theorem carries_expression : Carries x y c.expression c'.expression := by
  intro e d he hx
  obtain ⟨s, hs, hs', -⟩ := h.shared
  have hlong := Nat.lt_of_le_of_lt hx.length_le (length_expression_lt he)
  obtain ⟨first, more, rfl⟩ : ∃ first more, s = first :: more := by
    cases s with
    | nil => simp [hs] at hlong
    | cons first more => exact ⟨first, more, rfl⟩
  have hnumeral {t : List Char} (ht : TagEnd t) := numeral?_append ht.wordEnd (first :: more)
  rw [List.cons_append] at hs hs'
  simp only [expression, hs, hs'] at he ⊢
  rw [← List.cons_append, hnumeral h.tagEnd_left] at he
  rw [← List.cons_append, hnumeral h.tagEnd]
  split at he
  next hquote =>
    rw [if_pos hquote]
    split at he
    next => cases he
    next s d hs =>
      cases he
      obtain ⟨d', hs', hd'⟩ := carries_quoted h first _ _ hs hx
      rw [hs']
      exact ⟨d', rfl, hd'⟩
  next hquote =>
    rw [if_neg hquote]
    split at he
    next n rest hn =>
      obtain ⟨⟨n', inner⟩, hn', hpair⟩ := Option.map_eq_some_iff.mp hn
      cases hpair
      cases he
      rw [hn']
      exact ⟨_, rfl, h.reach inner⟩
    next hn =>
      rw [Option.map_eq_none_iff.mp hn]
      split at he
      next => cases he
      next p d hp =>
        cases he
        obtain ⟨d', hp', hd'⟩ := carries_path h _ _ hp hx
        simp only [Option.map_none, hp']
        exact ⟨d', rfl, hd'⟩

end

end Cursor
end Stencil
