import Stencil.Proofs.Scan.Cursor
import Stencil.Proofs.Numerals.Token
import Stencil.Proofs.PathText

/-!
Words that are scanned. Quoted strings, numerals and paths are found by the bytes that they take;
where a reader of words tells what remains of the text, the scan comes to that place.
-/
namespace Stencil

theorem byteLength_eq_zero {s : List Char} : byteLength s = 0 ↔ s = [] := by
  refine ⟨fun h => ?_, fun h => h ▸ rfl⟩
  by_contra hne
  exact Nat.ne_of_gt (byteLength_pos hne) h

namespace Cursor

variable {c d : Cursor}

theorem LeadsTo.reach {rest : List Char} (h : c.LeadsTo d) (hrest : rest <:+ d.rest) :
    c.reach rest = d.reach rest := by
  obtain ⟨m, s⟩ := c
  obtain ⟨n, t⟩ := d
  obtain ⟨before, hs, hmark⟩ := h
  obtain ⟨shown, ht⟩ := hrest
  dsimp only at hs hmark ht
  subst ht hs hmark
  rw [reach_append, ← List.append_assoc, reach_append, Mark.past_append]

theorem advance_advance (c : Cursor) (m n : Nat) : (c.advance m).advance n = c.advance (m + n) := by
  simp only [advance, List.take_add, Mark.past_append, List.drop_drop]

theorem reach_eq_advance {s rest : List Char} (h : c.rest = s ++ rest) :
    c.reach rest = c.advance s.length := by
  rw [reach, h, List.length_append, Nat.add_sub_cancel]

theorem reach_self (c : Cursor) : c.reach c.rest = c := reach_append c.mark [] c.rest

/-- Where a word was found, what was found, and the place behind it. -/
def found {α : Type} (c : Cursor) : Option (α × List Char) → Option α × Cursor
  | some (a, rest) => (some a, c.reach rest)
  | none => (none, c)

end Cursor

namespace Scan

variable {α β γ : Type} {text : List Char} {c d : Cursor}

theorem isBoundary_behind (hc : (Cursor.start text).LeadsTo c) {s rest : List Char}
    (h : c.rest = s ++ rest) : IsBoundary text (c.mark.offset + byteLength s) := by
  obtain ⟨before, htext, -, hoffset⟩ := Cursor.exists_before hc
  rw [hoffset, ← byteLength_append, htext, h, ← List.append_assoc]
  exact isBoundary_byteLength _ _

/-- The text between two places. -/
theorem reads_textTo (hc : (Cursor.start text).LeadsTo c) (h : c.LeadsTo d) (e : Cursor) :
    Reads text (cut c.mark.offset d.mark.offset) e (.ok (c.textTo d, e)) := by
  obtain ⟨s, hs, hmark⟩ := h
  rw [hmark, past_offset, Cursor.textTo_eq hs]
  exact reads_cut_behind hc hs e

/-- A run of characters that follows, or a step without it. -/
theorem Follows.ifRun {p : Char → Bool} {view : β → α} {settle : β → State → State} {no : Scan α}
    {yes : Nat → Scan α} {r : Except Fault (β × Cursor)}
    (hno : c.rest.takeWhile p = [] → Follows text view settle no c r)
    (hyes : ∀ s, c.rest.takeWhile p = s → s ≠ [] → c.rest = s ++ c.rest.dropWhile p →
      Follows text view settle (yes (byteLength s)) c r) :
    Follows text view settle
      (runLength p 0 >>= fun length => if length = 0 then no else yes length) c r := by
  refine .andThen (reads_runLength p (s := []) rfl) ?_
  split
  next hnone => exact hno (byteLength_eq_zero.mp hnone)
  next hsome =>
    exact hyes _ rfl (fun hnil => hsome (byteLength_eq_zero.mpr hnil))
      List.takeWhile_append_dropWhile.symm

theorem Follows.reading {part : Part} {m : Scan α} {r : Except Fault (α × Cursor)}
    (h : Reads text m c r) (hshort : ∀ a d, r = .ok (a, d) → d.rest.length < c.rest.length) :
    Reads text (reading part m) c r := by
  intro hc s hs
  refine runs_reading ((h hc s hs).mono fun result t ht => ⟨ht, fun a ha => ?_⟩)
  cases r with
  | error f => rw [ha] at ht; exact nomatch ht.1
  | ok p =>
    obtain ⟨b, d⟩ := p
    obtain ⟨-, rfl, hd⟩ := ht
    rw [hs]
    exact hd.offset_lt (hshort b d rfl)

/-! Strings. -/

theorem quotedString?_char {quote x : Char} {rest : List Char} (hx : x ≠ quote)
    (hescape : ¬ (x = '\\' ∧ rest.head? = some quote)) :
    quotedString? quote (x :: rest) = (quotedString? quote rest).map fun r => (x :: r.1, r.2) := by
  rw [quotedString?.eq_def]
  dsimp only
  rw [if_neg hx]
  split
  next d more =>
    rw [if_neg fun h => hescape ⟨rfl, by rw [h]; rfl⟩]
  next => rfl

theorem quotedString?_quote (quote : Char) (rest : List Char) :
    quotedString? quote (quote :: rest) = some ([], rest) := by
  rw [quotedString?.eq_def]
  exact if_pos rfl

theorem quotedString?_escape {quote : Char} (hq : quote ≠ '\\') (rest : List Char) :
    quotedString? quote ('\\' :: quote :: rest) =
      (quotedString? quote rest).map fun r => (quote :: r.1, r.2) := by
  rw [quotedString?, if_neg (Ne.symm hq)]
  exact if_pos rfl

/-- What a string comes to that was read as `value` before. -/
def stringFrom (quote : Char) (value : List Char) (c : Cursor) : Except Fault (String × Cursor) :=
  match quotedString? quote c.rest with
  | some (more, rest) => .ok (String.ofList (value ++ more), c.reach rest)
  | none => .error ((c.advance c.rest.length).fault (.endOfText (some quote.toString)))

theorem stringFrom_step {quote : Char} {value : List Char} (added : List Char) (hcd : c.LeadsTo d)
    (h : quotedString? quote c.rest =
      (quotedString? quote d.rest).map fun r => (added ++ r.1, r.2)) :
    stringFrom quote value c = stringFrom quote (value ++ added) d := by
  rw [stringFrom, stringFrom, h]
  cases hd : quotedString? quote d.rest with
  | none =>
    have hend : c.advance c.rest.length = d.advance d.rest.length :=
      hcd.reach d.rest.nil_suffix
    simp only [Option.map_none, hend]
  | some r =>
    simp only [Option.map_some, List.append_assoc, hcd.reach (quotedString?_suffix hd)]

theorem Follows.ifEscapes {view : β → α} {settle : β → State → State} {yes no : Scan α}
    {r : Except Fault (β × Cursor)} {quote x : Char} {rest : List Char} (h : c.rest = x :: rest)
    (hyes : x = '\\' ∧ rest.head? = some quote → Follows text view settle yes c r)
    (hno : ¬ (x = '\\' ∧ rest.head? = some quote) → Follows text view settle no c r) :
    Follows text view settle (escapes quote x >>= fun found => if found then yes else no) c r := by
  by_cases hx : x = '\\'
  · rw [escapes, if_pos hx]
    subst hx
    refine .within fun hc => .andThen (d := c) (a := rest.head? == some quote)
      (.andThen (reads_offset c) (.andThen (reads_cutFrom (s := ['\\']) hc h c) ?_)) ?_
    · have hquote : [quote].isPrefixOf rest = (rest.head? == some quote) :=
        Cursor.follows_singleton {} quote rest
      rw [← hquote]
      exact reads_pure _ c
    · split
      next hrest => exact hyes ⟨rfl, by simpa using hrest⟩
      next hrest => exact hno fun hescape => hrest (by simp [hescape.2])
  · rw [escapes, if_neg hx]
    exact .andThen (reads_pure _ c) (hno fun hescape => hx hescape.1)

theorem reads_string {quote : Char} {rest : List Char} (hq : quote ≠ '\\') (hline : quote ≠ '\n')
    (h : c.rest = quote :: rest) : Reads text (string quote) c (c.quoted quote) := by
  have hquoted : c.quoted quote = stringFrom quote [] (c.advance 1) := by
    have hlead := c.leadsTo_advance 1
    rw [Cursor.quoted, stringFrom, Cursor.rest_advance]
    cases hvalue : quotedString? quote (c.rest.drop 1) with
    | none =>
      have hend : c.advance c.rest.length = (c.advance 1).advance (c.rest.drop 1).length :=
        hlead.reach List.nil_suffix
      simp only [hend]
    | some r => simp only [List.nil_append, hlead.reach (quotedString?_suffix hvalue)]
  rw [hquoted]
  refine .andThen (reads_skip (s := [quote]) h (by simpa using Ne.symm hline)) ?_
  refine reads_loop (F := stringFrom quote) (fun value d _ => ?_) .string [] _
  obtain ⟨m, s⟩ := d
  cases s with
  | nil => exact .failed (.andThen (reads_peekChar _) (follows_fail _ _)) rfl
  | cons x rest =>
    by_cases hescape : x = '\\' ∧ rest.head? = some quote
    · obtain ⟨rfl, hrest⟩ := hescape
      obtain ⟨more, rfl⟩ := List.head?_eq_some_iff.mp hrest
      refine .again (.andThen (reads_peekChar _)
          (.ifEscapes rfl (fun _ => ?_) fun h => absurd ⟨rfl, rfl⟩ h))
        (length_advance_lt rfl)
        (stringFrom_step [quote] (Cursor.leadsTo_advance _ 2) (quotedString?_escape hq more))
      exact .andThen (reads_skip (s := ['\\', quote]) rfl (by simpa using Ne.symm hline))
        (reads_pure _ _)
    · by_cases hx : x = quote
      · subst hx
        refine .done (.andThen (reads_peekChar _)
          (.ifEscapes rfl (absurd · hescape) fun _ => ?_)) ?_
          (d := (Cursor.mk m (x :: rest)).advance 1) (x := String.ofList value)
        · rw [if_pos rfl]
          exact .andThen (reads_skip (s := [x]) rfl (by simpa using Ne.symm hline)) (reads_pure _ _)
        · have hreach : (Cursor.mk m (x :: rest)).reach rest = _ :=
            Cursor.reach_eq_advance (s := [x]) rfl
          simp only [stringFrom, quotedString?_quote, List.append_nil, hreach]
          rfl
      · refine .again (.andThen (reads_peekChar _)
            (.ifEscapes rfl (absurd · hescape) fun _ => ?_))
          (length_advance_lt rfl)
          (stringFrom_step [x] (Cursor.leadsTo_advance _ 1) (quotedString?_char hx hescape))
        rw [if_neg hx]
        exact .andThen (reads_advance rfl) (reads_pure _ _)

/-! Numerals. -/

theorem reads_truthWord? (word : List Char) (hline : '\n' ∉ word) (value : Int64) (c : Cursor) :
    Reads text (truthWord? word value) c
      (.ok (c.found (Stencil.truthWord? word value c.rest))) := by
  refine .ifPeek (fun h => ?_) fun h => ?_
  · obtain ⟨rest, hrest⟩ := exists_of_follows h
    have hword : Stencil.truthWord? word value c.rest =
        if endsNumeral rest then some (⟨.int value, true, String.ofList word⟩, rest) else none := by
      have hprefix : word.isPrefixOf c.rest = true := h
      have hdrop : c.rest.drop word.length = rest := by rw [hrest, List.drop_left]
      simp only [Stencil.truthWord?, hprefix, hdrop, Bool.true_and]
    rw [hword]
    refine .within fun hc => .andThen (reads_offset c) (.andThen (reads_cutFrom hc hrest c) ?_)
    split
    · refine .andThen (reads_skip hrest hline) ?_
      rw [Cursor.found, Cursor.reach_eq_advance hrest]
      exact reads_pure _ _
    · exact reads_pure _ _
  · have hprefix : word.isPrefixOf c.rest = false := h
    simp only [Stencil.truthWord?, hprefix, Bool.false_and]
    exact reads_pure _ _

theorem reads_fractionLength {s rest : List Char} (h : c.rest = s ++ rest) :
    Reads text (fractionLength (byteLength s)) c
      (.ok (byteLength (if (fractionDigits rest).isEmpty then [] else '.' :: fractionDigits rest),
        c)) := by
  refine .within fun hc => .andThen (reads_offset c) (.andThen (reads_cutFrom hc h c) ?_)
  split
  next hpoint =>
    obtain ⟨more, rfl⟩ := exists_of_follows (c := ⟨{}, rest⟩) hpoint
    have hpoint : byteLength s + 1 = byteLength (s ++ ['.']) := by
      rw [byteLength_append]
      rfl
    rw [hpoint]
    have hsplit : c.rest = (s ++ ['.']) ++ more := h.trans (List.append_assoc s ['.'] more).symm
    refine .andThen (reads_runLength Char.isDigit hsplit) ?_
    have hlength : (if byteLength (more.takeWhile Char.isDigit) = 0 then 0
          else 1 + byteLength (more.takeWhile Char.isDigit)) =
        byteLength (if (more.takeWhile Char.isDigit).isEmpty then []
          else '.' :: more.takeWhile Char.isDigit) := by
      cases more.takeWhile Char.isDigit with
      | nil => rfl
      | cons d digits =>
        have := byteLength_pos (List.cons_ne_nil d digits)
        rw [if_neg (by omega)]
        rfl
    have hdigits : fractionDigits (['.'] ++ more) = more.takeWhile Char.isDigit := rfl
    rw [hdigits, ← hlength]
    exact reads_pure _ c
  next hpoint =>
    have hnone : fractionDigits rest = [] := by
      unfold fractionDigits
      split
      · exact absurd rfl hpoint
      · rfl
    rw [hnone]
    exact reads_pure _ c

/-- Where the parts of the longest decimal stand in a text. -/
theorem exists_ofText (s : List Char) :
    ∃ unsigned after, s = (if (DecimalWord.ofText s).negative then ['-'] else []) ++ unsigned ∧
      unsigned = (DecimalWord.ofText s).whole ++ after ∧
      unsigned.takeWhile Char.isDigit = (DecimalWord.ofText s).whole ∧
      fractionDigits after = (DecimalWord.ofText s).fraction := by
  obtain ⟨unsigned, hunsigned⟩ : ∃ unsigned, s.drop (s.head? == some '-').toNat = unsigned :=
    ⟨_, rfl⟩
  refine ⟨unsigned, unsigned.dropWhile Char.isDigit, ?_, ?_, ?_, ?_⟩
  · cases s with
    | nil => simpa [DecimalWord.ofText] using hunsigned
    | cons x s =>
      by_cases hx : x = '-'
      · simp [DecimalWord.ofText, hx, ← hunsigned]
      · have hsign : (x == '-') = false := beq_eq_false_iff_ne.mpr hx
        simp [DecimalWord.ofText, hsign, ← hunsigned]
  · simp only [DecimalWord.ofText, hunsigned, List.takeWhile_append_dropWhile]
  · simp only [DecimalWord.ofText, hunsigned]
  · simp only [DecimalWord.ofText, hunsigned, drop_length_takeWhile]

theorem notMem_text {w : DecimalWord} (hw : w.Valid) : '\n' ∉ w.text := by
  have hdigits : '\n' ∉ w.whole ++ w.fraction := fun h => absurd (hw.digits _ h) (by decide)
  rw [List.mem_append, not_or] at hdigits
  have hsign : '\n' ∉ if w.negative then ['-'] else [] := by split <;> simp
  have hfraction : '\n' ∉ if w.fraction.isEmpty then [] else '.' :: w.fraction := by
    split
    · exact List.not_mem_nil
    · simpa using hdigits.2
  simp only [DecimalWord.text, List.mem_append, hsign, hdigits.1, hfraction, or_self,
    not_false_eq_true]

theorem reads_decimalNumeral? (c : Cursor) :
    Reads text decimalNumeral? c (.ok (c.found (Stencil.decimalNumeral? c.rest))) := by
  obtain ⟨unsigned, after, hrest, hunsigned, hwhole, hfraction⟩ := exists_ofText c.rest
  obtain ⟨rest, htext⟩ := text_ofText_starts c.rest
  have hsign : c.follows ['-'] = (DecimalWord.ofText c.rest).negative :=
    Cursor.follows_singleton c.mark '-' c.rest
  have hdrop : c.rest.drop (DecimalWord.ofText c.rest).text.length = rest := by
    conv_lhs => arg 2; rw [← htext]
    exact List.drop_left
  have hvalid (hne : (DecimalWord.ofText c.rest).whole ≠ []) := DecimalWord.valid_ofText hne
  simp only [Stencil.decimalNumeral?, hdrop]
  generalize DecimalWord.ofText c.rest = w at *
  obtain ⟨sign, hw⟩ : ∃ sign, (if w.negative then ['-'] else []) = sign := ⟨_, rfl⟩
  have hlength : (if w.negative then 1 else 0) = byteLength sign := by
    rw [← hw]
    split <;> rfl
  rw [hw] at hrest
  refine .within fun hc => .andThen (reads_peek _ c) ?_
  rw [hsign]
  simp only [hlength]
  refine .andThen (reads_runLength Char.isDigit hrest) ?_
  rw [hwhole]
  split
  next hnone =>
    rw [byteLength_eq_zero.mp hnone]
    exact reads_pure _ c
  next hsome =>
    have hne : w.whole ≠ [] := fun h => hsome (byteLength_eq_zero.mpr h)
    have hparts : c.rest = (sign ++ w.whole) ++ after := by
      rw [hrest, hunsigned, List.append_assoc]
    rw [← byteLength_append]
    refine .andThen (reads_fractionLength hparts) ?_
    have hsum : byteLength (sign ++ w.whole) +
          byteLength (if w.fraction.isEmpty then [] else '.' :: w.fraction) =
        byteLength w.text := by
      rw [← byteLength_append, DecimalWord.text, hw]
    simp only [hfraction, hsum]
    refine .andThen (reads_offset c) (.andThen (reads_cutFrom hc htext.symm c) ?_)
    have hsome : (!w.whole.isEmpty) = true := by simpa using hne
    rw [hsome, Bool.true_and]
    split
    next =>
      refine .andThen (reads_offset c) (.andThen (reads_offset c)
        (.andThen (reads_cut_behind hc htext.symm c)
          (.andThen (reads_skip htext.symm (notMem_text (hvalid hne))) ?_)))
      simp only [(hvalid hne).ofText_text, Cursor.found, Cursor.reach_eq_advance htext.symm]
      exact reads_pure _ _
    next => exact reads_pure _ c

/-- A step that may find something. -/
theorem Follows.bindFound {view : β → α} {settle : β → State → State} {m : Scan (Option γ)}
    {k : Option γ → Scan α} {r : Option (γ × List Char)} {s : Except Fault (β × Cursor)}
    (h : Reads text m c (.ok (c.found r)))
    (hsome : ∀ a rest, r = some (a, rest) → Follows text view settle (k (some a)) (c.reach rest) s)
    (hnone : r = none → Follows text view settle (k none) c s) :
    Follows text view settle (m >>= k) c s := by
  cases r with
  | some p => exact .andThen h (hsome p.1 p.2 rfl)
  | none => exact .andThen h (hnone rfl)

theorem reads_numeral? (c : Cursor) :
    Reads text numeral? c (.ok (c.found (Stencil.numeral? c.rest))) := by
  rw [Stencil.numeral?]
  refine .bindFound (reads_truthWord? ['t', 'r', 'u', 'e'] (by decide) 1 c) (fun n rest h => ?_)
    fun h => ?_
  · rw [h]
    exact reads_pure _ _
  rw [h]
  refine .bindFound (reads_truthWord? ['f', 'a', 'l', 's', 'e'] (by decide) 0 c)
    (fun n rest h => ?_) fun h => ?_
  · rw [h]
    exact reads_pure _ _
  rw [h]
  exact reads_decimalNumeral? c

/-! Paths. -/

theorem bytesBefore?_append {x : Char} {name : List Char} (h : x ∉ name) (rest : List Char) :
    bytesBefore? [x] (name ++ x :: rest) = some (byteLength name) := by
  induction name with
  | nil => simp [bytesBefore?]
  | cons c name ih =>
    rw [List.mem_cons, not_or] at h
    simp [bytesBefore?, List.isPrefixOf, h.1, ih h.2]

theorem bytesBefore?_eq_none {x : Char} {s : List Char} (h : x ∉ s) :
    bytesBefore? [x] s = none := by
  induction s with
  | nil => rfl
  | cons c s ih =>
    rw [List.mem_cons, not_or] at h
    simp [bytesBefore?, List.isPrefixOf, h.1, ih h.2]

theorem notMem_takeWhile {p : Char → Bool} {x : Char} (h : p x = false) (s : List Char) :
    x ∉ s.takeWhile p := fun hx => by
  simp [List.all_eq_true.mp List.all_takeWhile x hx] at h

theorem reads_separator (c : Cursor) :
    Reads text separator c (.ok (c.separator?.isSome, c.separator?.getD c)) := by
  rw [Cursor.separator?]
  refine .ifConsume (by decide) (fun h => ?_) fun h => ?_
  · simp only [h, Bool.true_or, if_true]
    exact reads_pure _ _
  · have hread : Reads text (consume ['/']) c _ := reads_consume (by decide) c
    rw [h, Bool.false_or]
    cases hslash : c.follows ['/'] with
    | true => rwa [hslash] at hread
    | false => rwa [hslash] at hread

theorem reads_segment (c : Cursor) : Reads text segment c c.segment := by
  rw [Cursor.segment]
  refine .ifConsume (by decide) (fun h => ?_) fun h => ?_
  · rw [if_pos h]
    change Reads text _ (c.advance 1) _
    generalize c.advance 1 = inner
    refine .within fun hc => .andThen (reads_offset inner) (.andThen (reads_ahead inner) ?_)
    obtain ⟨name, hname⟩ : ∃ name, inner.rest.takeWhile (· != ']') = name := ⟨_, rfl⟩
    have hnot : ']' ∉ name := hname ▸ notMem_takeWhile (by decide) inner.rest
    have hsplit : inner.rest = name ++ inner.rest.dropWhile (· != ']') := by
      rw [← hname, List.takeWhile_append_dropWhile]
    have hstops := stops_dropWhile (· != ']') inner.rest
    simp only [hname]
    cases hafter : inner.rest.dropWhile (· != ']') with
    | nil =>
      rw [hafter, List.append_nil] at hsplit
      rw [hsplit, bytesBefore?_eq_none hnot, if_neg (Nat.lt_irrefl _)]
      exact .andThen (reads_stretch (hsplit.trans name.append_nil.symm)) (follows_fail _ _)
    | cons x more =>
      obtain rfl : x = ']' := by simpa [hafter, stops_cons] using hstops
      rw [hafter] at hsplit
      rw [hsplit, bytesBefore?_append hnot, if_pos (by simp)]
      have hsound : (Event.found (inner.mark.offset + byteLength name)).Sound text :=
        isBoundary_behind hc hsplit
      have hbracket : (inner.advance name.length).rest = [']'] ++ more := by
        rw [Cursor.rest_advance, hsplit, List.drop_left]
        rfl
      refine .andThen (reads_note hsound inner) (.andThen (reads_stretch hsplit) ?_)
      rw [← Cursor.advance_advance]
      exact .andThen (reads_skip hbracket (by decide))
        (.andThen (reads_cut_behind hc hsplit _) (reads_pure _ _))
  · rw [if_neg (by simp [h])]
    refine .within fun hc => .andThen (reads_offset c)
      (.ifRun (fun hnone => ?_) fun name hname hne hsplit => ?_)
    · rw [hnone]
      exact .andThen (reads_ahead c) (follows_fail _ c)
    · have hline : '\n' ∉ name := hname ▸ notMem_takeWhile (by decide) c.rest
      rw [hname, if_neg (by simpa using hne)]
      exact .andThen (reads_skip hsplit hline)
        (.andThen (reads_cut_behind hc hsplit _) (reads_pure _ _))

/-- The parents that a path climbs to at `c`, behind some that it climbed to before. -/
def parentsFrom (steps : List PathStep) (c : Cursor) :
    Except Fault ((List PathStep × Bool) × Cursor) :=
  .ok ((steps ++ List.replicate (climb c.rest).count .parent, (climb c.rest).continues),
    c.reach (climb c.rest).rest)

theorem climb_suffix (s : List Char) : (climb s).rest <:+ s := by
  fun_induction climb s with
  | case1 rest ih => exact ih.trans ⟨['.', '.', '.'], rfl⟩
  | case2 rest ih => exact ih.trans ⟨['.', '.', '/'], rfl⟩
  | case3 rest => exact ⟨['.', '.'], rfl⟩
  | case4 s => exact List.suffix_refl s

/-- Where no separator follows a parent, the climb ends with it. -/
theorem parentsFrom_last {steps : List PathStep} {m : Mark} {t : List Char}
    (h : (Cursor.mk (m.past ['.', '.']) t).separator? = none) :
    parentsFrom steps ⟨m, '.' :: '.' :: t⟩ =
      .ok ((steps ++ [.parent], false), ⟨m.past ['.', '.'], t⟩) := by
  have hclimb : climb ('.' :: '.' :: t) = ⟨1, false, t⟩ := by
    unfold climb
    split <;> simp_all [Cursor.separator?, Cursor.follows_singleton]
  have hreach : (Cursor.mk m ('.' :: '.' :: t)).reach t = ⟨m.past ['.', '.'], t⟩ :=
    Cursor.reach_append m ['.', '.'] t
  rw [parentsFrom]
  simp only [hclimb, hreach]
  rfl

theorem parentsFrom_more {steps : List PathStep} {m : Mark} {t : List Char} {d : Cursor}
    (h : (Cursor.mk (m.past ['.', '.']) t).separator? = some d) :
    parentsFrom steps ⟨m, '.' :: '.' :: t⟩ = parentsFrom (steps ++ [.parent]) d := by
  obtain ⟨mark, hmark, ht⟩ := Cursor.exists_separator h
  dsimp only at ht
  subst ht
  have hclimb : climb ('.' :: '.' :: mark :: d.rest) = (climb d.rest).succ := by
    rcases hmark with rfl | rfl <;> rfl
  have hlead : (Cursor.mk m ('.' :: '.' :: mark :: d.rest)).LeadsTo d :=
    .trans ⟨['.', '.'], rfl, rfl⟩ (Cursor.leadsTo_of_separator? h)
  rw [parentsFrom, parentsFrom]
  simp only [hclimb, Climb.succ, hlead.reach (climb_suffix d.rest), List.replicate_succ,
    List.append_assoc, List.singleton_append]

theorem parentsFrom_none {steps : List PathStep} (h : c.follows ['.', '.'] = false) :
    parentsFrom steps c = .ok ((steps, true), c) := by
  have hclimb : climb c.rest = ⟨0, true, c.rest⟩ := by
    unfold climb
    split <;> simp_all [Cursor.follows]
  simp only [parentsFrom, hclimb, c.reach_self, List.replicate_zero, List.append_nil]

theorem reads_parents (c : Cursor) : Reads text parents c (parentsFrom [] c) := by
  refine reads_loop (F := parentsFrom) (fun steps d _ => ?_) .parents [] c
  obtain ⟨m, s⟩ := d
  cases hdots : (Cursor.mk m s).follows ['.', '.'] with
  | false =>
    exact .done (.ifPeek_neg hdots (reads_pure _ _)) (parentsFrom_none hdots)
  | true =>
    obtain ⟨t, rfl⟩ := exists_of_follows hdots
    have hskip : Reads text (skip 2) ⟨m, '.' :: '.' :: t⟩ _ :=
      reads_skip (s := ['.', '.']) rfl (by decide)
    have hsep : Reads text separator _ _ := reads_separator (.mk (m.past ['.', '.']) t)
    cases h : (Cursor.mk (m.past ['.', '.']) t).separator? with
    | none =>
      rw [h] at hsep
      exact .done (.ifPeek_pos hdots (.andThen hskip (.andThen hsep (reads_pure _ _))))
        (parentsFrom_last h)
    | some d =>
      rw [h] at hsep
      refine .again (.ifPeek_pos hdots (.andThen hskip (.andThen hsep (reads_pure _ _)))) ?_
        (parentsFrom_more h)
      exact Nat.lt_of_le_of_lt (Cursor.length_separator?_le h)
        (length_advance_lt (n := 1) (c := ⟨m, '.' :: '.' :: t⟩) rfl)

theorem reads_pathHead (isPrivate : Bool) (c : Cursor) :
    Reads text (pathHead isPrivate) c (.ok (((c.pathHead isPrivate).steps,
      (c.pathHead isPrivate).continues), (c.pathHead isPrivate).after)) := by
  refine .andThen (reads_parents c) ?_
  have hempty : (List.replicate (climb c.rest).count PathStep.parent).isEmpty =
      ((climb c.rest).count == 0) := by cases (climb c.rest).count <;> rfl
  simp only [Cursor.pathHead, List.nil_append, hempty]
  generalize climb c.rest = front
  generalize c.reach front.rest = d
  cases hfront : front.continues && !isPrivate && front.count == 0 with
  | false => exact reads_pure _ d
  | true =>
    simp only [Bool.true_and, if_true]
    refine .ifPeek (fun h => ?_) fun h => ?_
    · obtain ⟨rest, hrest⟩ := exists_of_follows h
      simp only [h, if_true]
      have hcount : front.count = 0 := by simp_all
      refine .andThen (reads_skip hrest (by decide)) (.andThen (reads_consume (by decide) _) ?_)
      rw [hcount]
      change Reads text _ (if (d.advance 1).follows ['/'] then _ else d.advance 1) _
      cases (d.advance 1).follows ['/'] <;> exact reads_pure _ _
    · simp only [h]
      exact reads_pure _ d

/-- The segments that a path has to go on with at `c`, behind the steps it has before. -/
def segmentsFrom (present : List PathStep × Bool × Bool) (c : Cursor) :
    Except Fault ((List PathStep × Bool) × Cursor) :=
  let (steps, isPrivate, continues) := present
  if continues then do
    let (segments, d) ← c.segments
    return ((steps ++ segmentSteps isPrivate segments, false), d)
  else return ((steps, isPrivate), c)

theorem segmentSteps_cons (isPrivate : Bool) (s : Segment) (more : List Segment) :
    segmentSteps isPrivate (s :: more) =
      (if isPrivate then .datum s.name else s.step) :: segmentSteps false more := by
  cases more <;> rfl

/-- Behind one more segment, a path has to go on where a separator follows. -/
theorem segmentsFrom_continues (steps : List PathStep) (isPrivate : Bool) (c : Cursor) :
    segmentsFrom (steps, isPrivate, true) c = (do
      let (s, d) ← c.segment
      segmentsFrom (steps ++ [if isPrivate then .datum s.name else s.step], false,
        d.separator?.isSome) (d.separator?.getD d)) := by
  simp only [segmentsFrom, if_true, Cursor.segments_eq c, bind_assoc]
  refine bind_congr fun (s, d) => ?_
  cases d.separator? with
  | none => rfl
  | some e =>
    simp only [bind_assoc, pure_bind]
    refine bind_congr fun (more, last) => ?_
    rw [segmentSteps_cons, List.append_assoc]
    rfl

theorem reads_segments (isPrivate : Bool) (steps : List PathStep) (continues : Bool) (c : Cursor) :
    Reads text (segments isPrivate steps continues) c
      (segmentsFrom (steps, isPrivate, continues) c) := by
  refine reads_loop (F := segmentsFrom) (fun (steps, isPrivate, continues) d _ => ?_) .segments _ c
  cases continues with
  | false => exact .done (reads_pure _ d) rfl
  | true =>
    have hread : Reads text segment d _ := reads_segment d
    have hnext := segmentsFrom_continues steps isPrivate d
    cases hs : d.segment with
    | error f =>
      rw [hs] at hread hnext
      exact .failed (.failed hread) hnext
    | ok p =>
      obtain ⟨s, e⟩ := p
      rw [hs] at hread hnext
      change _ = segmentsFrom (_, false, e.separator?.isSome) (e.separator?.getD e) at hnext
      refine .again (.andThen hread (.andThen (reads_separator e) (reads_pure _ _))) ?_ hnext
      have hshort := Cursor.length_segment_lt hs
      cases he : e.separator? with
      | none => exact hshort
      | some g => exact Nat.lt_of_le_of_lt (Cursor.length_separator?_le he) hshort

/-- A step whose value is all that is asked for. -/
theorem Follows.map {m : Scan α} {r : Except Fault (α × Cursor)} {s : Except Fault (β × Cursor)}
    (h : Reads text m c r) (f : α → β) (hok : ∀ a d, r = .ok (a, d) → s = .ok (f a, d))
    (herror : ∀ e, r = .error e → s = .error e) : Reads text (do return f (← m)) c s := by
  cases r with
  | error e =>
    rw [herror e rfl]
    exact .failed h
  | ok p =>
    rw [hok p.1 p.2 rfl]
    exact .andThen h (reads_pure _ _)

theorem reads_path (c : Cursor) : Reads text path c c.path := by
  refine .reading ?_ fun _ _ => Cursor.length_path_lt
  obtain ⟨isPrivate, hprivate⟩ : ∃ isPrivate, c.follows ['@'] = isPrivate := ⟨_, rfl⟩
  obtain ⟨head, hhead⟩ : ∃ head, c.skipMark.pathHead isPrivate = head := ⟨_, rfl⟩
  have hmark : Reads text (consume ['@']) c (.ok (isPrivate, c.skipMark)) :=
    hprivate ▸ reads_consume (by decide) c
  have hfront : Reads text (pathHead isPrivate) c.skipMark _ := reads_pathHead isPrivate c.skipMark
  have hlead : c.LeadsTo head.after := by
    rw [← hhead]
    exact c.leadsTo_skipMark.trans (Cursor.leadsTo_pathHead _ _)
  rw [hhead] at hfront
  refine .within fun hc => .andThen (reads_offset c) (.andThen hmark (.andThen hfront ?_))
  simp only [Cursor.path, hprivate, hhead]
  have hread : Reads text (segments isPrivate head.steps head.continues) head.after _ :=
    reads_segments _ _ _ _
  cases hcontinues : head.continues with
  | false =>
    rw [hcontinues] at hread
    refine .andThen hread ?_
    cases isPrivate with
    | true => exact follows_fail _ _
    | false => exact .andThen (reads_offset _) (.andThen (reads_textTo hc hlead _) (reads_pure _ _))
  | true =>
    rw [hcontinues, segmentsFrom] at hread
    cases hsegments : head.after.segments with
    | error f =>
      rw [hsegments] at hread
      exact .failed hread
    | ok p =>
      rw [hsegments] at hread
      have hmore := (Cursor.tracks_segments head.after).leadsTo _ _ hsegments
      exact .andThen hread (.andThen (reads_offset _)
        (.andThen (reads_textTo hc (hlead.trans hmore) _) (reads_pure _ _)))

theorem reads_expression (c : Cursor) : Reads text expression c c.expression := by
  refine .reading (.andThen (reads_peekChar c) ?_) fun _ _ => Cursor.length_expression_lt
  rw [Cursor.expression.eq_def]
  cases hrest : c.rest with
  | nil => exact follows_fail _ c
  | cons x rest =>
    simp only [List.head?_cons]
    split
    next hquote =>
      have hq : x ≠ '\\' ∧ x ≠ '\n' := by
        rcases Bool.or_eq_true_iff.mp hquote with h | h <;> rw [beq_iff_eq.mp h] <;> decide
      exact .map (reads_string hq.1 hq.2 hrest) Expression.string (fun _ _ h => by rw [h])
        fun _ h => by rw [h]
    next hquote =>
      rw [← hrest]
      refine .bindFound (reads_numeral? c) (fun n rest h => ?_) fun h => ?_
      · rw [h]
        exact reads_pure _ _
      · rw [h]
        exact .map (reads_path c) Expression.path (fun _ _ h => by rw [h]) fun _ h => by rw [h]

end Scan
end Stencil
