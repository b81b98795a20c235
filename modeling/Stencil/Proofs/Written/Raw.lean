import Stencil.Proofs.Written.Word

/-!
Raw text read back. A raw text ends where its tail starts: at a tag, which no text before it can
hide, or at the end.
-/
namespace Stencil

namespace Written

/-- What follows a raw text: a tag, or nothing. -/
def RawTail (beforeTag : Bool) (tail : List Char) : Prop :=
  if beforeTag then ['{', '{'] <+: tail else tail = []

theorem RawTail.of_braces {text : List Char} (h : ['{', '{'] <+: text) (tail : List Char) :
    RawTail true (text ++ tail) := h.trans (List.prefix_append text tail)

theorem RawTail.rawText {beforeTag : Bool} {tail : List Char} (h : RawTail beforeTag tail) :
    rawText tail = ([], tail) := by
  cases beforeTag with
  | false =>
    obtain rfl : tail = [] := by simpa [RawTail] using h
    rw [Stencil.rawText]
  | true =>
    obtain ⟨rest, rfl⟩ : ['{', '{'] <+: tail := by simpa [RawTail] using h
    rw [List.cons_append, List.cons_append, List.nil_append, Stencil.rawText]

theorem Paired.tail {c : Char} {text : List Char} (h : Paired (c :: text))
    (hne : c = '{' → text.head? ≠ some '{') : Paired text := by
  unfold Paired at h ⊢
  rw [List.reverse_cons, List.takeWhile_append] at h
  split at h
  next hall =>
    rw [hall]
    by_cases hc : c = '{'
    · cases text with
      | nil => rfl
      | cons d text =>
        -- the first character of the text is a brace if all are
        have hd : d ∈ (d :: text).reverse.takeWhile (· == '{') := by
          rw [List.IsPrefix.eq_of_length (List.takeWhile_prefix _) hall]
          simp
        have := List.all_eq_true.mp List.all_takeWhile d hd
        exact absurd (by simpa using this) (hne hc)
    · simpa [hc] using h
  next => exact h

theorem Paired.drop_pair {text : List Char} (h : Paired ('{' :: '{' :: text)) : Paired text := by
  unfold Paired at h ⊢
  rw [List.reverse_cons, List.reverse_cons, List.append_assoc, List.takeWhile_append] at h
  split at h
  next hall => simpa [hall] using h
  next => exact h

theorem escapeBraces_eq_self {text : List Char} (h : '{' ∉ text) : escapeBraces text = text := by
  fun_induction escapeBraces text with
  | case1 => simp at h
  | case2 c rest _ ih => rw [ih fun hrest => h (.tail c hrest)]
  | case3 => rfl

@[simp] theorem rawWritten_nil (beforeTag : Bool) : rawWritten beforeTag [] = [] := by
  simp [rawWritten, escapeBraces]

@[simp] theorem rawWritten_pair (beforeTag : Bool) (text : List Char) :
    rawWritten beforeTag ('{' :: '{' :: text) =
      '\\' :: '{' :: '{' :: rawWritten beforeTag text := by
  have hlast : (('{' :: '{' :: text).getLast? == some '\\') = (text.getLast? == some '\\') := by
    cases text <;> simp
  rw [rawWritten, hlast, escapeBraces]
  rfl

theorem rawWritten_singleton (beforeTag : Bool) (c : Char) :
    rawWritten beforeTag [c] = if beforeTag && c == '\\' then ['\\', '\\'] else [c] := by
  by_cases hc : c = '\\' <;> cases beforeTag <;> simp [rawWritten, escapeBraces, hc]

theorem rawWritten_cons {c d : Char} (h : c = '{' → d ≠ '{') (beforeTag : Bool) (text : List Char) :
    rawWritten beforeTag (c :: d :: text) = c :: rawWritten beforeTag (d :: text) := by
  have hescape : escapeBraces (c :: d :: text) = c :: escapeBraces (d :: text) := by
    rw [escapeBraces]
    simpa using h
  rw [rawWritten, rawWritten, hescape, List.getLast?_cons_cons]
  rfl

/-- A text that does not start with a pair of braces starts as it is written. -/
theorem rawWritten_eq_cons {c : Char} {text : List Char}
    (h : c = '{' → text.head? ≠ some '{') (beforeTag : Bool) :
    ∃ more, rawWritten beforeTag (c :: text) = c :: more := by
  cases text with
  | nil =>
    rw [rawWritten_singleton]
    split
    next hc => exact ⟨['\\'], by simp_all⟩
    next => exact ⟨[], rfl⟩
  | cons d text => exact ⟨_, rawWritten_cons (by simpa using h) _ _⟩

theorem rawWritten_ne_nil {text : List Char} (h : text ≠ []) (beforeTag : Bool) :
    rawWritten beforeTag text ≠ [] := by
  obtain ⟨c, text, rfl⟩ := List.exists_cons_of_ne_nil h
  by_cases hpair : c = '{' → text.head? ≠ some '{'
  · obtain ⟨more, hmore⟩ := rawWritten_eq_cons hpair beforeTag
    simp [hmore]
  · obtain ⟨rfl, hhead⟩ : c = '{' ∧ text.head? = some '{' := by simpa using hpair
    obtain ⟨rest, rfl⟩ := List.head?_eq_some_iff.mp hhead
    simp

/-- A raw text with its tail starts with braces only if it is empty. -/
theorem not_braces_written {beforeTag : Bool} {text tail : List Char} (hne : text ≠ [])
    (hp : beforeTag → Paired text) (ht : RawTail beforeTag tail) :
    ¬ ['{', '{'] <+: rawWritten beforeTag text ++ tail := by
  obtain ⟨c, text, rfl⟩ := List.exists_cons_of_ne_nil hne
  cases text with
  | nil =>
    cases beforeTag with
    | false =>
      obtain rfl : tail = [] := by simpa [RawTail] using ht
      simp [rawWritten_singleton]
    | true =>
      rw [rawWritten_singleton]
      split
      next => simp_all
      next =>
        have hc : c ≠ '{' := by
          rintro rfl
          simpa [Paired] using hp rfl
        simp [hc.symm]
  | cons d text =>
    by_cases hc : c = '{'
    · by_cases hd : d = '{'
      · simp [hc, hd]
      · have hhead : d = '{' → text.head? ≠ some '{' := fun h => absurd h hd
        obtain ⟨more, hmore⟩ := rawWritten_eq_cons hhead beforeTag
        simp [rawWritten_cons fun _ => hd, hmore, Ne.symm hd]
    · simp [rawWritten_cons fun h => absurd h hc, Ne.symm hc]

/-- A character that starts neither a tag nor an escape. -/
theorem rawText_cons {c : Char} {text : List Char} (h : ¬ ['{', '{'] <+: c :: text)
    (he : c = '\\' → ¬ ['{', '{'] <+: text ∧ ¬ ['\\', '{', '{'] <+: text) :
    rawText (c :: text) = (c :: (rawText text).1, (rawText text).2) := by
  rw [rawText]
  · rfl
  · rintro rest rfl rfl
    exact (he rfl).2 ⟨rest, rfl⟩
  · rintro rest rfl rfl
    exact (he rfl).1 ⟨rest, rfl⟩
  · rintro rest rfl rfl
    exact h ⟨rest, rfl⟩

/-- Behind a backslash no text looks like an escape. -/
theorem not_escape_written {beforeTag : Bool} {text tail : List Char}
    (hb : ¬ ['{', '{'] <+: text) (hp : beforeTag → Paired text) (hne : text ≠ [])
    (ht : RawTail beforeTag tail) :
    ¬ ['\\', '{', '{'] <+: rawWritten beforeTag text ++ tail := by
  obtain ⟨c, text, rfl⟩ := List.exists_cons_of_ne_nil hne
  have hpair : c = '{' → text.head? ≠ some '{' := by
    rintro rfl hhead
    obtain ⟨rest, rfl⟩ := List.head?_eq_some_iff.mp hhead
    exact hb ⟨rest, rfl⟩
  cases text with
  | nil =>
    rw [rawWritten_singleton]
    split
    next => simp
    next hc =>
      cases beforeTag with
      | false =>
        obtain rfl : tail = [] := by simpa [RawTail] using ht
        intro h
        simpa using h.length_le
      | true =>
        have hc : c ≠ '\\' := by simpa using hc
        simp [hc.symm]
  | cons d text =>
    rw [rawWritten_cons (by simpa using hpair)]
    intro h
    obtain ⟨-, h⟩ := List.cons_prefix_cons.mp h
    exact not_braces_written (by simp) (fun hbefore => (hp hbefore).tail hpair) ht h

/-- A raw text is read back up to its tail. -/
theorem rawText_written {beforeTag : Bool} {text tail : List Char}
    (hb : ¬ ['\\', '{', '{'] <:+: text) (hp : beforeTag → Paired text)
    (ht : RawTail beforeTag tail) :
    rawText (rawWritten beforeTag text ++ tail) = (text, tail) := by
  induction text using escapeBraces.induct with
  | case1 rest ih =>
    have hrest := ih (fun h => hb (h.trans ⟨['{', '{'], [], by simp⟩))
      fun hbefore => (hp hbefore).drop_pair
    rw [rawWritten_pair, List.cons_append, List.cons_append, List.cons_append, rawText, hrest]
    rfl
  | case2 c rest hpair ih =>
    have hnot := not_braces_written (List.cons_ne_nil c rest) hp ht
    cases rest with
    | nil =>
      rw [rawWritten_singleton] at hnot ⊢
      split at hnot
      next hc =>
        obtain ⟨rfl, rfl⟩ : beforeTag = true ∧ c = '\\' := by simpa using hc
        obtain ⟨rest, rfl⟩ : ['{', '{'] <+: tail := by simpa [RawTail] using ht
        simp [rawText]
      next hc =>
        rw [List.singleton_append] at hnot
        rw [if_neg hc, List.singleton_append, rawText_cons hnot, ht.rawText]
        rintro rfl
        obtain rfl : beforeTag = false := by simpa using hc
        obtain rfl : tail = [] := by simpa [RawTail] using ht
        simp
    | cons d rest =>
      have hne : c = '{' → d ≠ '{' := fun hc hd => hpair rest hc (by rw [hd])
      have hpaired : beforeTag → Paired (d :: rest) := fun hbefore =>
        (hp hbefore).tail (by simpa using hne)
      have hrest := ih (fun h => hb (h.trans (List.suffix_cons c _).isInfix)) hpaired
      rw [rawWritten_cons hne, List.cons_append] at hnot ⊢
      rw [rawText_cons hnot, hrest]
      rintro rfl
      have hbraces : ¬ ['{', '{'] <+: d :: rest := fun h =>
        hb (List.cons_prefix_cons.mpr ⟨rfl, h⟩).isInfix
      exact ⟨not_braces_written (by simp) hpaired ht,
        not_escape_written hbraces hpaired (by simp) ht⟩
  | case3 => simpa using ht.rawText

end Written
end Stencil
