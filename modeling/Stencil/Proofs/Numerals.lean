import Stencil.Proofs.Frames
import Stencil.Proofs.Locality
import Stencil.Proofs.Numerals.Token
import Stencil.Proofs.Positions
import Stencil.Proofs.Words

/-!
Numerals. What starts with digits is a numeral if it is a whole word, and else a path. An integer is
kept exactly where 64 bits hold it, and is shown without the zeros that its token need not have.
-/
namespace Stencil

open Written

/-! Reading. -/

namespace Cursor

/-- An expression that is no string is a numeral where there is one, and else a path. -/
theorem expression_cons {c : Cursor} {first : Char} {more : List Char} (h : c.rest = first :: more)
    (hquote : first ∉ ['"', '\'']) :
    c.expression =
      match numeral? c.rest with
      | some (n, rest) => .ok (.numeral n, c.reach rest)
      | none => c.path.map fun r => (.path r.1, r.2) := by
  have hstring : (first == '"' || first == '\'') = false := by simpa using hquote
  rw [expression, h]
  simp only [hstring, Bool.false_eq_true, if_false]
  cases numeral? (first :: more) with
  | some r => rfl
  | none => cases c.path <;> rfl

theorem expression_eq_numeral {c d : Cursor} {n : Numeral} :
    c.expression = .ok (.numeral n, d) ↔
      ∃ token, NumeralAt c.rest n token ∧ c.rest = token ++ d.rest ∧ NumeralEnd d.rest ∧
        d.mark = c.mark.past token := by
  obtain ⟨mark, text⟩ := c
  obtain ⟨after, rest⟩ := d
  dsimp only
  constructor
  · intro h
    cases text with
    | nil => cases h
    | cons first more =>
      simp only [expression] at h
      split at h
      · split at h <;> cases h
      · split at h
        next hn =>
          obtain ⟨token, htoken, htext, hend⟩ := numeral?_eq_some.mp hn
          rw [htext, reach_append] at h
          cases h
          exact ⟨token, htoken, htext, hend, rfl⟩
        next => split at h <;> cases h
  · rintro ⟨token, htoken, rfl, hend, rfl⟩
    have hn := numeral?_eq_some.mpr ⟨token, htoken, rfl, hend⟩
    cases htext : token ++ rest with
    | nil =>
      have hlt := numeral?_length_lt hn
      simp [htext] at hlt
    | cons first more =>
      have hquote : first ∉ ['"', '\''] := by
        intro hfirst
        have hnone : numeral? (first :: more) = none := by
          rcases List.mem_pair.mp hfirst with rfl | rfl
          · exact numeral?_eq_none (by decide) (by decide) more
          · exact numeral?_eq_none (by decide) (by decide) more
        rw [htext, hnone] at hn
        cases hn
      rw [← htext, expression_cons htext hquote, hn]
      simp only [reach_append]

end Cursor

/-! Digits. -/

theorem exists_digitChar {c : Char} (h : c.isDigit) : ∃ d < 10, c = Nat.digitChar d := by
  obtain ⟨hge, hle⟩ := Char.isDigit_iff_toNat.mp h
  change 48 ≤ c.toNat at hge
  change c.toNat ≤ 57 at hle
  have hlt : c.toNat - 48 < 10 := by omega
  refine ⟨c.toNat - 48, hlt, Char.toNat_inj.mp ?_⟩
  rw [Nat.toNat_digitChar_of_lt_ten hlt]
  omega

section
variable {run : List Char} (hd : ∀ c ∈ run, c.isDigit)
include hd

/-- More digits behind those of a number are the digits of the number that they make. -/
theorem toDigits_append_digits {n : Nat} (hn : 0 < n) :
    Nat.toDigits 10 n ++ run = Nat.toDigits 10 (Nat.ofDigitChars 10 run n) := by
  induction run generalizing n with
  | nil => simp
  | cons c run ih =>
    obtain ⟨d, hlt, rfl⟩ := exists_digitChar (hd c (.head _))
    have hstep := Nat.toDigits_append_toDigits (b := 10) (by decide) hn hlt
    rw [Nat.toDigits_of_lt_base hlt] at hstep
    rw [Nat.ofDigitChars_cons_digitChar_of_lt_ten hlt,
      ← ih (fun c hc => hd c (.tail _ hc)) (by omega), ← hstep, List.append_assoc,
      List.singleton_append]

end

/-- Zeros in front make no difference. -/
theorem ofDigitChars_zero (run : List Char) :
    Nat.ofDigitChars 10 ('0' :: run) 0 = Nat.ofDigitChars 10 run 0 :=
  Nat.ofDigitChars_cons

theorem toDigits_ofDigitChars {c : Char} {run : List Char} (hd : ∀ x ∈ c :: run, x.isDigit)
    (hc : c ≠ '0') : Nat.toDigits 10 (Nat.ofDigitChars 10 (c :: run) 0) = c :: run := by
  obtain ⟨d, hlt, rfl⟩ := exists_digitChar (hd c (.head _))
  have hpos : 0 < d := Nat.pos_of_ne_zero fun hzero => hc (Nat.digitChar_eq_zero.mpr hzero)
  rw [Nat.ofDigitChars_cons_digitChar_of_lt_ten hlt, Nat.mul_zero, Nat.zero_add,
    ← toDigits_append_digits (fun x hx => hd x (.tail _ hx)) hpos, Nat.toDigits_of_lt_base hlt,
    List.singleton_append]

theorem length_toDigits_le {run : List Char} (hne : run ≠ []) (hd : ∀ c ∈ run, c.isDigit) :
    (Nat.toDigits 10 (Nat.ofDigitChars 10 run 0)).length ≤ run.length := by
  induction run with
  | nil => exact absurd rfl hne
  | cons c run ih =>
    by_cases hc : c = '0'
    · subst hc
      rw [ofDigitChars_zero]
      cases run with
      | nil => simp
      | cons c run => exact Nat.le_succ_of_le (ih (by simp) fun x hx => hd x (.tail _ hx))
    · rw [toDigits_ofDigitChars hd hc]

/-- A run of digits is the decimal of its value just if it has no zero that can be left out. -/
theorem toDigits_ofDigitChars_iff {run : List Char} (hne : run ≠ []) (hd : ∀ c ∈ run, c.isDigit) :
    Nat.toDigits 10 (Nat.ofDigitChars 10 run 0) = run ↔ (run.head? = some '0' → run = ['0']) := by
  obtain ⟨c, run, rfl⟩ := List.exists_cons_of_ne_nil hne
  by_cases hc : c = '0'
  · subst hc
    rw [ofDigitChars_zero]
    constructor
    · rintro h -
      by_contra hrun
      have hrun : run ≠ [] := by simpa using hrun
      have hle := length_toDigits_le hrun fun x hx => hd x (.tail _ hx)
      rw [h] at hle
      exact absurd hle (Nat.not_succ_le_self run.length)
    · intro h
      obtain rfl : run = [] := (List.cons.inj (h rfl)).2
      rfl
  · exact iff_of_true (toDigits_ofDigitChars hd hc) fun h => absurd (Option.some.inj h) hc

/-! Values. -/

/-- Decimal notation of an integer is that of the library. -/
theorem Number.intText_eq_toString (n : Int) : Number.intText n = toString n := by
  rw [Int.toString_eq_repr, Int.repr_eq_if]
  split
  next h => rw [intText_of_nonneg h, Nat.repr_eq_ofList_toDigits, Decimal.digitChars]
  next h =>
    have hsize : n.natAbs = (-n).toNat := by omega
    rw [intText_of_neg (Int.not_le.mp h), Nat.repr_eq_ofList_toDigits, Decimal.digitChars, hsize]
    exact String.toList_inj.mp (by simp)

/-- Zero has no sign. -/
theorem Number.intText_signed (negative : Bool) (size : Nat) :
    Number.intText (if negative then -size else size) =
      String.ofList ((if negative && size != 0 then ['-'] else []) ++ Nat.toDigits 10 size) := by
  cases negative with
  | false => exact intText_of_nonneg (Int.natCast_nonneg size)
  | true =>
    cases size with
    | zero => rfl
    | succ size =>
      have hneg : -((size + 1 : Nat) : Int) < 0 := by omega
      rw [if_pos rfl, intText_of_neg hneg, Int.natAbs_neg]
      rfl

namespace DecimalWord

/-- The integer before the point, with its sign. -/
def integer (w : DecimalWord) : Int :=
  let size := Nat.ofDigitChars 10 w.whole 0
  if w.negative then -size else size

/-- The decimal that all digits make, with its sign. -/
def decimal (w : DecimalWord) : Decimal :=
  ⟨w.negative, Nat.ofDigitChars 10 (w.whole ++ w.fraction) 0, -w.fraction.length⟩

/-- An integer of 64 bits, written without a fraction. -/
structure Fits (w : DecimalWord) : Prop where
  noFraction : w.fraction = []
  lower : -2 ^ 63 ≤ w.integer
  upper : w.integer ≤ 2 ^ 63 - 1

/-- No zero stands in front of other digits, and no sign before zero. -/
def Canonical (w : DecimalWord) : Prop :=
  w.whole.head? = some '0' → w.whole = ['0'] ∧ w.negative = false

variable {w : DecimalWord}

theorem text_of_noFraction (h : w.fraction = []) :
    w.text = (if w.negative then ['-'] else []) ++ w.whole := by
  simp [text, h]

theorem fits_iff : w.Fits ↔
    w.fraction.isEmpty ∧ Number.intRange
      (if w.negative then -(w.decimal.digits : Int) else w.decimal.digits) := by
  obtain ⟨negative, whole, fraction⟩ := w
  have hrange (n : Int) : Number.intRange n ↔ -2 ^ 63 ≤ n ∧ n ≤ 2 ^ 63 - 1 := by
    rw [Number.intRange, Int64.toInt_minValue, Int64.toInt_maxValue]
  simp only [List.isEmpty_iff, hrange, decimal]
  constructor
  · rintro ⟨rfl, hlower, hupper⟩
    rw [List.append_nil]
    exact ⟨rfl, hlower, hupper⟩
  · rintro ⟨rfl, hlower, hupper⟩
    rw [List.append_nil] at hlower hupper
    exact ⟨rfl, hlower, hupper⟩

theorem Fits.value_eq (h : w.Fits) : w.value = .int (Int64.ofInt w.integer) := by
  have hvalue : w.value = .int (Int64.ofInt
      (if w.negative then -(w.decimal.digits : Int) else w.decimal.digits)) :=
    if_pos (fits_iff.mp h)
  rw [hvalue, decimal, h.noFraction, List.append_nil]
  rfl

theorem Fits.toInt_integer (h : w.Fits) : (Int64.ofInt w.integer).toInt = w.integer :=
  Int64.toInt_ofInt_of_le h.lower (by have := h.upper; omega)

theorem value_of_not_fits (h : ¬ w.Fits) : w.value = .float w.decimal.toFloat :=
  if_neg fun hfits => h (fits_iff.mpr hfits)

/-- An integer is shown as its token just if that is canonical. -/
theorem Valid.toString_integer (h : w.Valid) (hfraction : w.fraction = []) :
    toString w.integer = String.ofList w.text ↔ w.Canonical := by
  obtain ⟨negative, whole, fraction⟩ := w
  obtain ⟨hne, hd⟩ := h
  obtain rfl : fraction = [] := hfraction
  rw [List.append_nil] at hd
  have hdigits := toDigits_ofDigitChars_iff hne hd
  have hshown := Number.intText_signed negative (Nat.ofDigitChars 10 whole 0)
  rw [text_of_noFraction rfl, ← Number.intText_eq_toString, integer, hshown, String.ofList_inj,
    Canonical]
  dsimp only at hne hdigits ⊢
  cases negative with
  | false => simpa using hdigits
  | true =>
    by_cases hzero : Nat.ofDigitChars 10 whole 0 = 0
    · have hhead : whole.head? = some '0' := by
        by_contra hhead
        have hwhole := hdigits.mpr fun h => absurd h hhead
        rw [hzero, Nat.toDigits_zero] at hwhole
        exact hhead (by rw [← hwhole]; rfl)
      simp [hzero, hhead]
    · have hhead : whole ≠ ['0'] := by
        rintro rfl
        exact hzero rfl
      simpa [hzero, hhead] using hdigits

end DecimalWord

/-! Rendering. -/

/-- A tag of a number alone, not escaped. -/
def Numeral.plainTag (n : Numeral) : Statement := .tag (.numeral n) {} false

theorem Numeral.parse_plainTag {n : Numeral} (hn : WritableNumeral n) {text : List Char}
    (h : TagText n.plainTag text) : parse (String.ofList text) = .ok [n.plainTag] := by
  have htext : ProgramText false [n.plainTag] (text ++ []) := .tag h .nil
  rw [List.append_nil] at htext
  refine htext.parse ⟨.tag hn ⟨by simp, by simp, by simp, by simp⟩ .nil, ?_⟩
  exact Nat.zero_le _

theorem Renderer.statement_plainTag (r : Renderer) (s : Scope) {n : Numeral}
    (h : n.isBoolean = false) : r.statement s n.plainTag = pure n.value.text := by
  have hvalue : Render.evaluate? s (.numeral n) = pure (some (.number n.value)) := by
    simp [Render.evaluate?, h]
  have htext : r.tagText s (.numeral n) {} = pure n.value.text := by
    change pure none >>= _ = _
    rw [pure_bind]
    change Render.evaluate? s (.numeral n) >>= _ = _
    rw [hvalue, pure_bind]
    rfl
  rw [Numeral.plainTag, statement, tag, htext, pure_bind]
  rfl

/-- A template that is such a tag is rendered as its number, whatever there is around it. -/
theorem Template.render_plainTag (t : Template) {n : Numeral} (h : n.isBoolean = false)
    (hp : parse t.source = .ok [n.plainTag]) (v : Value) : t.render v = pure n.value.text := by
  obtain ⟨f, hf⟩ := exists_render hp
  rw [hf, renderProgram_eq, program_singleton, Renderer.statement_plainTag _ _ h]

/-- Numerals are read as they are written, and integers shown so.
* A numeral is read where one of the words for truth values, or else the longest decimal, is
  followed by what ends a numeral. Just that token is passed then, and kept as the source of the
  numeral. Else nothing is passed, and what starts there is a path.
* A decimal without a fraction that 64 bits hold is kept as that integer, whatever zeros and sign
  it is written with, and every other one as the double for the decimal that its digits make.
* The integer is rendered, alone and not escaped, in its usual decimal notation, which is the token
  just if no zero stands in front of other digits, and no sign before zero. -/
theorem numerals_exact :
    (∀ text n rest, numeral? text = some (n, rest) ↔
      ∃ token, NumeralAt text n token ∧ text = token ++ rest ∧ NumeralEnd rest) ∧
    (∀ (c d : Cursor) n, c.expression = .ok (.numeral n, d) ↔
      ∃ token, NumeralAt c.rest n token ∧ c.rest = token ++ d.rest ∧ NumeralEnd d.rest ∧
        d.mark = c.mark.past token) ∧
    (∀ text n token, NumeralAt text n token → n.source = String.ofList token) ∧
    (∀ (c : Cursor) first more, c.rest = first :: more → first ∉ ['"', '\''] →
      (∀ n token rest, NumeralAt c.rest n token → c.rest = token ++ rest → ¬ NumeralEnd rest) →
      c.expression = c.path.map fun r => (.path r.1, r.2)) ∧
    ∀ w : DecimalWord, w.Valid →
      ((∃ i : Int64, w.value = .int i ∧ i.toInt = w.integer) ↔ w.Fits) ∧
      (w.value = .float w.decimal.toFloat ↔ ¬ w.Fits) ∧
      (w.Fits →
        let tag := Numeral.plainTag ⟨w.value, false, String.ofList w.text⟩
        (∀ text, TagText tag text → parse (String.ofList text) = .ok [tag]) ∧
        (∀ (t : Template) v cs, parse t.source = .ok [tag] →
          (t.render v).run cs = ⟨.ok (toString w.integer), cs, []⟩) ∧
        (toString w.integer = String.ofList w.text ↔ w.Canonical)) := by
  refine ⟨fun _ _ _ => numeral?_eq_some, fun _ _ _ => Cursor.expression_eq_numeral, ?_, ?_, ?_⟩
  · rintro text n token (_ | _ | _) <;> rfl
  · intro c first more hfirst hquote hnone
    rw [Cursor.expression_cons hfirst hquote]
    cases hn : numeral? c.rest with
    | none => rfl
    | some r =>
      obtain ⟨token, htoken, htext, hend⟩ := numeral?_eq_some.mp hn
      exact absurd hend (hnone _ _ _ htoken htext)
  · intro w hw
    refine ⟨⟨?_, ?_⟩, ⟨?_, DecimalWord.value_of_not_fits⟩, ?_⟩
    · rintro ⟨i, hi, -⟩
      by_contra hfits
      rw [DecimalWord.value_of_not_fits hfits] at hi
      cases hi
    · intro hfits
      exact ⟨_, hfits.value_eq, hfits.toInt_integer⟩
    · intro hfloat hfits
      rw [hfits.value_eq] at hfloat
      cases hfloat
    · intro hfits tag
      refine ⟨fun text => Numeral.parse_plainTag (.inr (.inr ⟨w, hw.nonempty, hw.digits, rfl⟩)),
        fun t v cs hp => ?_, hw.toString_integer hfits.noFraction⟩
      have hshown : w.value.text = toString w.integer := by
        rw [hfits.value_eq, Number.text, hfits.toInt_integer,
          Number.intText_eq_toString]
      rw [t.render_plainTag rfl hp v, hshown]
      rfl

/-- Texts that start as numerals and are paths, the last integers of 64 bits and the first beyond
them, and integers that are not shown as they are written. -/
theorem numerals_exact_limits :
    let word (negative : Bool) (digits : String) : DecimalWord := ⟨negative, digits.toList, []⟩
    let rendered (source : String) :=
      ((Template.render { source, own := .global } .null).run .empty).result
    (∀ text ∈ ["1st", "1.", "1.2.3", "0/a", "truely"],
      (Cursor.start text.toList).expression =
        (Cursor.start text.toList).path.map fun r => (.path r.1, r.2)) ∧
    (∃ d value, (Cursor.start "-12.50~".toList).expression =
      .ok (.numeral ⟨value, false, "-12.50"⟩, d) ∧ d.rest = ['~'] ∧ ∃ x, value = .float x) ∧
    (∃ i : Int64, (word false "9223372036854775807").value = .int i ∧
      i.toInt = 9223372036854775807) ∧
    (∃ i : Int64, (word true "9223372036854775808").value = .int i ∧
      i.toInt = -9223372036854775808) ∧
    (∃ x, (word false "9223372036854775808").value = .float x) ∧
    rendered "\x7b\x7b&007\x7d\x7d" = .ok "7" ∧
    rendered "\x7b\x7b\x7b -0 \x7d \x7d\x7d" = .ok "0" := by
  intro word rendered
  obtain ⟨hreads, hexpression, -, hpath, hvalue⟩ := numerals_exact
  have hgoes (text : String) (hne : text.toList ≠ [])
      (hquote : ∀ c ∈ text.toList.head?, c ∉ ['"', '\'']) (hnone : numeral? text.toList = none) :
      (Cursor.start text.toList).expression =
        (Cursor.start text.toList).path.map fun r => (.path r.1, r.2) := by
    obtain ⟨first, more, hfirst⟩ := List.exists_cons_of_ne_nil hne
    refine hpath _ first more hfirst (hquote first (by rw [hfirst]; rfl)) ?_
    intro n token rest htoken htext hend
    have hread := (hreads text.toList n rest).mpr ⟨token, htoken, htext, hend⟩
    rw [hnone] at hread
    cases hread
  have hword (negative : Bool) (digits : String) (hne : digits.toList ≠ [])
      (hd : digits.toList.all Char.isDigit) : (word negative digits).Valid :=
    ⟨hne, by simpa [word] using hd⟩
  have hshow {w : DecimalWord} (hw : w.Valid) (hfits : w.Fits) {written : List Char}
      (htag : TagText (Numeral.plainTag ⟨w.value, false, String.ofList w.text⟩) written)
      {source text : String} (hsource : source.toList = written)
      (htext : toString w.integer = text) : rendered source = .ok text := by
    obtain ⟨hparse, hshown, -⟩ := (hvalue w hw).2.2 hfits
    have hp := hparse written htag
    rw [← hsource, String.ofList_toList] at hp
    rw [← htext]
    exact congrArg Outcome.result (hshown { source, own := .global } .null .empty hp)
  have hsigned : DecimalWord.Longest ⟨true, ['1', '2'], ['5', '0']⟩ "-12.50~".toList :=
    DecimalWord.longest_iff.mpr ⟨rfl, by simp⟩
  refine ⟨?_, ?_, ?_, ?_, ?_, ?_, ?_⟩
  · intro text htext
    simp only [List.mem_cons, List.not_mem_nil, or_false] at htext
    rcases htext with rfl | rfl | rfl | rfl | rfl <;> exact hgoes _ (by simp) (by simp) rfl
  · refine ⟨⟨_, ['~']⟩, _, (hexpression _ _ _).mpr ⟨_, .decimal hsigned, rfl, ?_, rfl⟩, rfl, ?_⟩
    · rintro _ ⟨⟩
      exact .inr (by simp)
    · exact ⟨_, (hvalue _ hsigned.valid).2.1.mpr fun hfits => by cases hfits.noFraction⟩
  · have hdigits := hword false "9223372036854775807" (by simp) (by decide)
    exact (hvalue _ hdigits).1.mpr ⟨rfl, by decide, by decide⟩
  · have hdigits := hword true "9223372036854775808" (by simp) (by decide)
    exact (hvalue _ hdigits).1.mpr ⟨rfl, by decide, by decide⟩
  · have hdigits := hword false "9223372036854775808" (by simp) (by decide)
    exact ⟨_, (hvalue _ hdigits).2.1.mpr fun hfits => absurd hfits.upper (by decide)⟩
  · have hdigits := hword false "007" (by simp) (by decide)
    exact hshow hdigits ⟨rfl, by decide, by decide⟩ (.ampersand (.intro .nil .nil .nil))
      (by simp [word, expressionText, DecimalWord.text]) (by decide)
  · have hdigits := hword true "0" (by simp) (by decide)
    have hspace : Blank [' '] := Gap.space.2
    exact hshow hdigits ⟨rfl, by decide, by decide⟩ (.braced (.intro hspace .nil hspace) hspace)
      (by simp [word, expressionText, DecimalWord.text]) (by decide)

end Stencil
