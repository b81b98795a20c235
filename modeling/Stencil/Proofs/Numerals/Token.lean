import Stencil.Proofs.Lookahead

/-!
Tokens of numerals. A numeral is read where a word for a truth value, or else the longest decimal
that a text starts with, is followed by what may end a numeral.
-/
namespace Stencil

open Written

namespace DecimalWord

/-- Digits, perhaps after a sign and perhaps with a fraction of more digits. -/
structure Valid (w : DecimalWord) : Prop where
  nonempty : w.whole ≠ []
  digits : ∀ c ∈ w.whole ++ w.fraction, c.isDigit

/-- `w` is the longest decimal that `text` starts with. -/
structure Longest (w : DecimalWord) (text : List Char) : Prop where
  valid : w.Valid
  starts : w.text <+: text
  longest : ∀ v : DecimalWord, v.Valid → v.text <+: text → v.text.length ≤ w.text.length

theorem isDigit_of_mem_ofText {text : List Char} :
    ∀ c ∈ (ofText text).whole ++ (ofText text).fraction, c.isDigit := by
  have hfraction (text : List Char) : ∀ c ∈ fractionDigits text, c.isDigit := by
    unfold fractionDigits
    split
    · exact List.all_eq_true.mp List.all_takeWhile
    · simp
  intro c hc
  rcases List.mem_append.mp hc with hc | hc
  · exact List.all_eq_true.mp List.all_takeWhile c hc
  · exact hfraction _ c hc

theorem valid_ofText {text : List Char} (h : (ofText text).whole ≠ []) : (ofText text).Valid :=
  ⟨h, isDigit_of_mem_ofText⟩

variable {v w : DecimalWord}

theorem Valid.ofText_text (h : w.Valid) : ofText w.text = w := by
  have hread := Written.ofText_text h.nonempty h.digits (t := []) (by simp [WordEnd])
  rwa [List.append_nil] at hread

/-- Whatever follows a decimal, at least as much is read. -/
theorem Valid.text_starts (h : w.Valid) (t : List Char) :
    w.text <+: (ofText (w.text ++ t)).text ∧ (ofText (w.text ++ t)).whole ≠ [] := by
  obtain ⟨negative, whole, fraction⟩ := w
  obtain ⟨hne, hd⟩ := h
  simp only [List.mem_append] at hne hd
  have hwhole : ∀ c ∈ whole, c.isDigit := fun c hc => hd c (.inl hc)
  obtain ⟨tail, htail⟩ : ∃ tail, tail = (if fraction.isEmpty then [] else '.' :: fraction) ++ t :=
    ⟨_, rfl⟩
  have htext : (DecimalWord.mk negative whole fraction).text ++ t =
      (if negative then ['-'] else []) ++ (whole ++ tail) := by
    simp [text, htail]
  rw [htext, ofText_signed negative fun _ => head?_digits_append hne hwhole tail,
    List.takeWhile_append_of_pos hwhole, List.dropWhile_append_of_pos hwhole]
  refine ⟨?_, by simp [hne]⟩
  cases fraction with
  | nil => simp [text]
  | cons d fraction =>
    -- the point ends the digits before it
    have hpoint : tail = '.' :: (d :: fraction ++ t) := htail
    have hfraction : ∀ c ∈ d :: fraction, c.isDigit := fun c hc => hd c (.inr hc)
    have hbefore : tail.takeWhile Char.isDigit = [] := by simp [hpoint]
    have hafter : fractionDigits (tail.dropWhile Char.isDigit) =
        d :: fraction ++ t.takeWhile Char.isDigit := by
      rw [← List.takeWhile_append_of_pos hfraction, hpoint]
      rfl
    rw [hbefore, hafter]
    simp [text]

theorem longest_iff {text : List Char} : w.Longest text ↔ ofText text = w ∧ w.whole ≠ [] := by
  constructor
  · rintro ⟨hw, ⟨t, rfl⟩, hlongest⟩
    obtain ⟨hstarts, hne⟩ := hw.text_starts t
    have hread := valid_ofText hne
    have htext : w.text = (ofText (w.text ++ t)).text :=
      hstarts.eq_of_length_le (hlongest _ hread (text_ofText_starts _))
    exact ⟨by rw [← hread.ofText_text, ← htext, hw.ofText_text], hw.nonempty⟩
  · rintro ⟨rfl, hne⟩
    refine ⟨valid_ofText hne, text_ofText_starts text, ?_⟩
    rintro v hv ⟨t, rfl⟩
    exact (hv.text_starts t).1.length_le

end DecimalWord

/-- The token of the numeral that `text` starts with: a word for a truth value, or the longest
decimal. -/
inductive NumeralAt (text : List Char) : Numeral → List Char → Prop
  | yes : ['t', 'r', 'u', 'e'] <+: text →
      NumeralAt text ⟨.int 1, true, "true"⟩ ['t', 'r', 'u', 'e']
  | no : ['f', 'a', 'l', 's', 'e'] <+: text →
      NumeralAt text ⟨.int 0, true, "false"⟩ ['f', 'a', 'l', 's', 'e']
  | decimal {w : DecimalWord} : w.Longest text →
      NumeralAt text ⟨w.value, false, String.ofList w.text⟩ w.text

/-- What may follow a numeral. -/
def NumeralEnd (rest : List Char) : Prop := ∀ c ∈ rest.head?, isSpace c ∨ c ∈ ['}', '~', ')']

theorem endsNumeral_iff {rest : List Char} : endsNumeral rest ↔ NumeralEnd rest := by
  cases rest with
  | nil => simp [endsNumeral, NumeralEnd]
  | cons c rest => simp [endsNumeral, NumeralEnd, or_assoc]

theorem truthWord?_eq_some {word text rest : List Char} {value : Int64} {n : Numeral} :
    truthWord? word value text = some (n, rest) ↔
      n = ⟨.int value, true, String.ofList word⟩ ∧ text = word ++ rest ∧ NumeralEnd rest := by
  rw [← endsNumeral_iff, truthWord?]
  constructor
  · intro h
    split at h
    next found =>
      obtain ⟨hstarts, hend⟩ := Bool.and_eq_true_iff.mp found
      obtain ⟨t, rfl⟩ := List.isPrefixOf_iff_prefix.mp hstarts
      rw [List.drop_left] at h hend
      cases h
      exact ⟨rfl, rfl, hend⟩
    next => cases h
  · rintro ⟨rfl, rfl, hend⟩
    have hstarts : word.isPrefixOf (word ++ rest) :=
      List.isPrefixOf_iff_prefix.mpr (List.prefix_append word rest)
    simp [hstarts, hend]

theorem decimalNumeral?_eq_some {text rest : List Char} {n : Numeral} :
    decimalNumeral? text = some (n, rest) ↔
      ∃ w : DecimalWord, w.Longest text ∧ n = ⟨w.value, false, String.ofList w.text⟩ ∧
        text = w.text ++ rest ∧ NumeralEnd rest := by
  simp only [← endsNumeral_iff, DecimalWord.longest_iff]
  obtain ⟨t, ht⟩ := text_ofText_starts text
  have hdrop : text.drop (DecimalWord.ofText text).text.length = t := by
    conv_lhs => arg 2; rw [← ht]
    exact List.drop_left
  rw [decimalNumeral?, hdrop]
  constructor
  · intro h
    split at h
    next found =>
      obtain ⟨hwhole, hend⟩ := Bool.and_eq_true_iff.mp found
      cases h
      exact ⟨_, ⟨rfl, by simpa using hwhole⟩, rfl, ht.symm, hend⟩
    next => cases h
  · rintro ⟨w, ⟨rfl, hne⟩, rfl, htext, hend⟩
    obtain rfl : t = rest := List.append_cancel_left (ht.trans htext)
    simp [hne, hend]

theorem numeral?_eq_some {text rest : List Char} {n : Numeral} :
    numeral? text = some (n, rest) ↔
      ∃ token, NumeralAt text n token ∧ text = token ++ rest ∧ NumeralEnd rest := by
  rw [numeral?]
  constructor
  · intro h
    simp only [Option.orElse_eq_orElse, Option.orElse_eq_or, Option.or_eq_some_iff] at h
    rcases h with h | ⟨-, h | ⟨-, h⟩⟩
    · obtain ⟨rfl, rfl, hend⟩ := truthWord?_eq_some.mp h
      exact ⟨_, .yes (List.prefix_append _ _), rfl, hend⟩
    · obtain ⟨rfl, rfl, hend⟩ := truthWord?_eq_some.mp h
      exact ⟨_, .no (List.prefix_append _ _), rfl, hend⟩
    · obtain ⟨w, hw, rfl, htext, hend⟩ := decimalNumeral?_eq_some.mp h
      exact ⟨w.text, .decimal hw, htext, hend⟩
  · rintro ⟨token, htoken, htext, hend⟩
    cases htoken with
    | yes =>
      rw [truthWord?_eq_some.mpr ⟨rfl, htext, hend⟩]
      rfl
    | no =>
      have hother : truthWord? ['t', 'r', 'u', 'e'] 1 text = none := by
        rw [htext]
        exact truthWord?_eq_none (by decide) _ _ _
      rw [hother, truthWord?_eq_some.mpr ⟨rfl, htext, hend⟩]
      rfl
    | @decimal w hw =>
      obtain ⟨c, rest', hc, hclass⟩ := text_eq_cons hw.valid.nonempty hw.valid.digits
      have hother {d : Char} (hd : d ≠ '-' ∧ d.isDigit = false) (word : List Char)
          (value : Int64) : truthWord? (d :: word) value text = none := by
        rw [htext, hc]
        refine truthWord?_eq_none ?_ word _ value
        rintro rfl
        simp [hd] at hclass
      rw [hother (by decide), hother (by decide),
        decimalNumeral?_eq_some.mpr ⟨w, hw, rfl, htext, hend⟩]
      rfl

end Stencil
