import Stencil.Proofs.Places
import Mathlib.Order.Bounds.Basic
import Mathlib.Data.List.Basic
import Mathlib.Data.List.Induction

/-!
Where an error is. The mark that a cursor keeps while it reads is the one that is found from the
text alone, so every error of a text tells its line, column and surroundings truly.
-/
namespace Stencil

/-! Bytes of a text. -/

@[simp] theorem byteLength_nil : byteLength [] = 0 := rfl

@[simp] theorem byteLength_cons (c : Char) (s : List Char) :
    byteLength (c :: s) = c.utf8Size + byteLength s := rfl

@[simp] theorem byteLength_append (s t : List Char) :
    byteLength (s ++ t) = byteLength s + byteLength t := by
  induction s with
  | nil => simp
  | cons c s ih => simp [ih, Nat.add_assoc]

@[simp] theorem byteLength_reverse (s : List Char) : byteLength s.reverse = byteLength s := by
  induction s with
  | nil => rfl
  | cons c s ih => simp [ih, Nat.add_comm]

theorem byteLength_pos {s : List Char} (h : s ≠ []) : 0 < byteLength s := by
  obtain ⟨c, s, rfl⟩ := List.exists_cons_of_ne_nil h
  have := c.utf8Size_pos
  simp only [byteLength_cons]
  omega

theorem utf8ByteSize_ofList (s : List Char) : (String.ofList s).utf8ByteSize = byteLength s := by
  induction s with
  | nil => rfl
  | cons c s ih =>
    have hsplit : String.ofList (c :: s) = String.singleton c ++ String.ofList s := by
      rw [String.singleton_eq_ofList, ← String.ofList_append]
      rfl
    rw [hsplit, String.utf8ByteSize_append, String.utf8ByteSize_singleton, ih, byteLength_cons]

theorem byteLength_le_of_prefix {s t : List Char} (h : s <+: t) : byteLength s ≤ byteLength t := by
  obtain ⟨r, rfl⟩ := h
  simp

/-- Of two beginnings of a text, the one with fewer bytes begins the other. -/
theorem prefix_of_byteLength_le {s t text : List Char} (hs : s <+: text) (ht : t <+: text)
    (h : byteLength s ≤ byteLength t) : s <+: t := by
  rcases List.prefix_or_prefix_of_prefix hs ht with h' | ⟨r, rfl⟩
  · exact h'
  · -- nothing can follow in `s`, which has no more bytes
    have hr : r = [] := by
      by_contra hne
      have := byteLength_pos hne
      simp only [byteLength_append] at h
      omega
    simp [hr]

/-- The offsets of a text at which a character starts, and the one at which the text ends. -/
def boundaries (text : String) : Set Nat := { o | (String.Pos.Raw.mk o).IsValid text }

theorem mem_boundaries_ofList {text : List Char} {o : Nat} :
    o ∈ boundaries (String.ofList text) ↔ ∃ before, before <+: text ∧ byteLength before = o := by
  rw [boundaries, Set.mem_ofPred_eq, String.Pos.Raw.isValid_ofList]
  constructor
  · rintro ⟨i, hi⟩
    exact ⟨text.take i, List.take_prefix i text, by rw [← utf8ByteSize_ofList]; exact hi.symm⟩
  · rintro ⟨before, hbefore, rfl⟩
    refine ⟨before.length, ?_⟩
    rw [utf8ByteSize_ofList, ← List.prefix_iff_eq_take.mp hbefore]

/-! The mark of a place. -/

theorem charsBefore_append (before after : List Char) :
    charsBefore (before ++ after) (byteLength before) = before := by
  induction before with
  | nil => cases after <;> simp [charsBefore]
  | cons c before ih =>
    have := c.utf8Size_pos
    have hne : ¬ c.utf8Size + byteLength before = 0 := by omega
    rw [List.cons_append, byteLength_cons, charsBefore, if_neg hne, Nat.add_sub_cancel_left, ih]

/-- The mark that was kept while a text was read is the one that is found from the text. -/
theorem Mark.past_eq_locate (before after : List Char) :
    Mark.past {} before = Mark.locate (before ++ after) (byteLength before) := by
  rw [Mark.locate, charsBefore_append]
  induction before using List.reverseRecOn with
  | nil => rfl
  | append_singleton before c ih =>
    rw [Mark.past_append, ih, Mark.past_cons, Mark.past_nil, Mark.next]
    by_cases hc : c = '\n'
    · simp [hc]
    · simp only [hc, if_false, List.reverse_append, List.reverse_singleton, List.singleton_append]
      rw [List.takeWhile_cons_of_pos (by simpa using hc)]
      simp [hc]
      omega

/-- The line of a place: what follows the last newline before it. -/
theorem exists_line (before : List Char) :
    ∃ above line, before = above ++ line ∧ '\n' ∉ line ∧
      (above = [] ∨ above.getLast? = some '\n') ∧
      line.reverse = before.reverse.takeWhile (· != '\n') := by
  refine ⟨(before.reverse.dropWhile (· != '\n')).reverse,
    (before.reverse.takeWhile (· != '\n')).reverse, ?_, ?_, ?_, by simp⟩
  · rw [← List.reverse_append, List.takeWhile_append_dropWhile, List.reverse_reverse]
  · intro hmem
    have := List.all_eq_true.mp List.all_takeWhile _ (List.mem_reverse.mp hmem)
    simp at this
  · rw [List.getLast?_reverse, List.reverse_eq_nil_iff]
    cases h : before.reverse.dropWhile (· != '\n') with
    | nil => exact .inl rfl
    | cons c rest =>
      have := List.head_dropWhile_not (· != '\n') (l := before.reverse) (by simp [h])
      right
      simpa [h] using this

/-! The window around a place. -/

/-- What starts before an offset ends at the first boundary from there on. -/
theorem charsBefore_least (text : List Char) (offset : Nat) :
    charsBefore text offset <+: text ∧
      min (byteLength text) offset ≤ byteLength (charsBefore text offset) ∧
      ∀ p, p <+: text → min (byteLength text) offset ≤ byteLength p →
        byteLength (charsBefore text offset) ≤ byteLength p := by
  induction text generalizing offset with
  | nil => simp [charsBefore]
  | cons c rest ih =>
    have hc := c.utf8Size_pos
    rw [charsBefore]
    split
    next h => simp [h]
    next h =>
      obtain ⟨hstart, hle, hleast⟩ := ih (offset - c.utf8Size)
      refine ⟨List.cons_prefix_cons.mpr ⟨rfl, hstart⟩, ?_, fun p hp hmin => ?_⟩
      · simp only [byteLength_cons]
        omega
      · cases p with
        | nil =>
          simp only [byteLength_cons, byteLength_nil] at hmin
          omega
        | cons d p =>
          obtain ⟨rfl, hrest⟩ := List.cons_prefix_cons.mp hp
          simp only [byteLength_cons] at hmin ⊢
          have := hleast p hrest (by omega)
          omega

/-- What ends after an offset starts at the last boundary up to there. -/
theorem exists_charsFrom (text : List Char) (offset : Nat) :
    ∃ before, before ++ charsFrom text offset = text ∧ byteLength before ≤ offset ∧
      ∀ p, p <+: text → byteLength p ≤ offset → byteLength p ≤ byteLength before := by
  induction text generalizing offset with
  | nil => exact ⟨[], by simp [charsFrom]⟩
  | cons c rest ih =>
    rw [charsFrom]
    split
    next h =>
      obtain ⟨before, hbefore, hle, hgreatest⟩ := ih (offset - c.utf8Size)
      refine ⟨c :: before, by simp [hbefore], ?_, fun p hp hmax => ?_⟩
      · simp only [byteLength_cons]
        omega
      · cases p with
        | nil => simp
        | cons d p =>
          obtain ⟨rfl, hrest⟩ := List.cons_prefix_cons.mp hp
          simp only [byteLength_cons] at hmax ⊢
          have := hgreatest p hrest (by omega)
          omega
    next h =>
      refine ⟨[], rfl, by simp, fun p hp hmax => ?_⟩
      cases p with
      | nil => simp
      | cons d p =>
        obtain ⟨rfl, -⟩ := List.cons_prefix_cons.mp hp
        simp only [byteLength_cons] at hmax
        omega

/-- A window is what stands between the last boundary before its radius and the first after it. -/
theorem exists_window (before after : List Char) :
    ∃ left shown right, before ++ after = left ++ shown ++ right ∧
      window (before ++ after) (byteLength before) = String.ofList shown ∧
      IsGreatest { o ∈ boundaries (String.ofList (before ++ after)) |
        o ≤ byteLength before - windowRadius } (byteLength left) ∧
      IsLeast { o ∈ boundaries (String.ofList (before ++ after)) |
        min (byteLength (before ++ after)) (byteLength before + windowRadius) ≤ o }
        (byteLength (left ++ shown)) := by
  obtain ⟨text, htext⟩ : ∃ text, text = before ++ after := ⟨_, rfl⟩
  have hbefore : before <+: text := ⟨after, htext.symm⟩
  rw [← htext]
  obtain ⟨hstart, hle, hleast⟩ := charsBefore_least text (byteLength before + windowRadius)
  obtain ⟨upTo, hupTo⟩ : ∃ upTo, upTo = charsBefore text (byteLength before + windowRadius) :=
    ⟨_, rfl⟩
  rw [← hupTo] at hstart hle hleast
  obtain ⟨left, hleft, hle', hgreatest⟩ := exists_charsFrom upTo (byteLength before - windowRadius)
  obtain ⟨right, hright⟩ := hstart
  have hbeforeLe := byteLength_le_of_prefix hbefore
  refine ⟨left, _, right, by rw [hleft, hright], by rw [window, hupTo], ⟨⟨?_, hle'⟩, ?_⟩, ⟨?_, ?_⟩⟩
  · exact mem_boundaries_ofList.mpr ⟨left, by rw [← hright, ← hleft]; simp, rfl⟩
  · rintro o ⟨ho, hmax⟩
    obtain ⟨p, hp, rfl⟩ := mem_boundaries_ofList.mp ho
    -- the boundary lies before the place, and so in the part that the window is cut from
    have hinside : p <+: upTo :=
      prefix_of_byteLength_le hp ⟨right, hright⟩ (by omega)
    exact hgreatest p hinside hmax
  · rw [hleft]
    exact ⟨mem_boundaries_ofList.mpr ⟨upTo, ⟨right, hright⟩, rfl⟩, hle⟩
  · rintro o ⟨ho, hmin⟩
    obtain ⟨p, hp, rfl⟩ := mem_boundaries_ofList.mp ho
    rw [hleft]
    exact hleast p hp hmin

/-! Errors. -/

/-- What an error says of the place in `source` where `before` ends. The line above it ends with a
newline, unless there is none. -/
structure ParseError.IsAt (e : ParseError) (source before : String) : Prop where
  position : e.position = before.utf8ByteSize
  line : e.line = before.toList.count '\n' + 1
  column : ∃ above line, before = above ++ line ∧ '\n' ∉ line.toList ∧
    (above = "" ∨ above.toList.getLast? = some '\n') ∧
    e.column = e.position - above.utf8ByteSize + 1
  context : ∃ left right, source = left ++ e.context ++ right ∧
    IsGreatest { o ∈ boundaries source | o ≤ e.position - 16 } left.utf8ByteSize ∧
    IsLeast { o ∈ boundaries source | min source.utf8ByteSize (e.position + 16) ≤ o }
      (left ++ e.context).utf8ByteSize

/-- A fault tells its place by the mark of that place, whether it was kept or is found again. -/
theorem Cursor.Finds.mark {text : List Char} {f : Fault} (h : (Cursor.start text).Finds f) :
    ∃ before after, text = before ++ after ∧ f.place.mark text = Mark.past {} before := by
  obtain ⟨d, ⟨before, hbefore, hmark⟩, hplace⟩ := h
  have htext : text = before ++ d.rest := hbefore
  have hlocate := Mark.past_eq_locate before d.rest
  have hpast : d.mark = Mark.past {} before := hmark
  refine ⟨before, d.rest, htext, ?_⟩
  rcases hplace with hplace | hplace
  · rw [hplace, Place.mark, hpast]
  · have hoffset : d.mark.offset = byteLength before := by rw [hpast, hlocate]; rfl
    rw [hplace, Place.mark, hoffset, hlocate, htext]

theorem Fault.error_isAt {before after : List Char} {f : Fault}
    (h : f.place.mark (before ++ after) = Mark.past {} before) :
    (f.error (before ++ after)).IsAt (String.ofList (before ++ after)) (String.ofList before) := by
  rw [Mark.past_eq_locate before after, Mark.locate, charsBefore_append] at h
  have hposition : (f.error (before ++ after)).position = byteLength before := by
    rw [Fault.error, h]
  constructor
  · rw [hposition, utf8ByteSize_ofList]
  · rw [Fault.error, h, String.toList_ofList]
  · obtain ⟨above, line, hsplit, hline, habove, htake⟩ := exists_line before
    refine ⟨String.ofList above, String.ofList line, ?_, by simpa using hline, ?_, ?_⟩
    · rw [hsplit, String.ofList_append]
    · simpa using habove
    · have hlength : byteLength before = byteLength above + byteLength line := by
        rw [hsplit, byteLength_append]
      rw [hposition, utf8ByteSize_ofList, Fault.error, h, Mark.column, ← htake, byteLength_reverse]
      dsimp only
      omega
  · obtain ⟨left, shown, right, htext, hwindow, hgreatest, hleast⟩ :=
      exists_window before after
    have hcontext : (f.error (before ++ after)).context = String.ofList shown := by
      rw [← hwindow, Fault.error, h]
    refine ⟨String.ofList left, String.ofList right, ?_, ?_, ?_⟩
    · rw [hcontext, htext, String.ofList_append, String.ofList_append]
    · rw [hposition, utf8ByteSize_ofList]
      exact hgreatest
    · rw [hcontext, hposition, ← String.ofList_append, utf8ByteSize_ofList, utf8ByteSize_ofList]
      exact hleast

/-- Every error of a text is at a place of the text, and tells its line, its column and the text
around it. The mark kept while reading, wherever a reader has got to, is the one that the text
gives for its offset; so it is where a fault was raised at the cursor. -/
theorem parse_error_isAt (source : String) :
    (∀ e, parse source = .error e → e.position ≤ source.utf8ByteSize ∧
      e.position ∈ boundaries source ∧
      ∃ before after, source = before ++ after ∧ e.IsAt source before) ∧
    (∀ mark kind, readProgram source.toList = .error ⟨.here mark, kind⟩ →
      mark = Mark.locate source.toList mark.offset) ∧
    ∀ before after, source.toList = before ++ after →
      Mark.past {} before = Mark.locate source.toList (byteLength before) := by
  refine ⟨fun e he => ?_, fun mark kind hf => ?_, fun before after hsplit => ?_⟩
  · rw [parse] at he
    cases hread : readProgram source.toList with
    | ok p => simp [hread, Except.mapError] at he
    | error f =>
      obtain rfl : f.error source.toList = e := by simpa [hread, Except.mapError] using he
      obtain ⟨before, after, hsplit, hmark⟩ := (finds_of_readProgram hread).mark
      have hsource : source = String.ofList (before ++ after) := by
        rw [← hsplit, String.ofList_toList]
      rw [hsplit] at hmark ⊢
      have hat := Fault.error_isAt hmark
      rw [← hsource] at hat
      have hposition : (f.error (before ++ after)).position = byteLength before := by
        rw [hat.position, utf8ByteSize_ofList]
      refine ⟨?_, ?_, String.ofList before, String.ofList after, ?_, hat⟩
      · rw [hposition, hsource, utf8ByteSize_ofList, byteLength_append]
        omega
      · rw [hposition, hsource]
        exact mem_boundaries_ofList.mpr ⟨before, List.prefix_append before after, rfl⟩
      · rw [hsource, String.ofList_append]
  · obtain ⟨before, after, hsplit, hmark⟩ := (finds_of_readProgram hf).mark
    rw [Place.mark] at hmark
    have hlocate := Mark.past_eq_locate before after
    rw [hsplit, hmark, hlocate]
    rfl
  · rw [hsplit]
    exact Mark.past_eq_locate before after

/-- A tag that closes no block, after a line break inside quotes and letters of two bytes each, one
of which the radius of the window divides. -/
theorem parse_error_isAt_wide :
    let source := "\x7b\x7ba '\né'\x7d\x7dééééééééx\x7b\x7b/b\x7d\x7d"
    let message := "'\x7b\x7b/b\x7d\x7d' does not close any block"
    let e : ParseError := ⟨2, 23, 28, "ééééééééx\x7b\x7b/b\x7d\x7d", .message message⟩
    parse source = .error e ∧
      ∃ before after, source = before ++ after ∧ e.IsAt source before := by
  intro source message e
  have hfails : (parse source).map (fun _ => ()) = .error e := by decide +kernel
  have he : parse source = .error e := by
    cases hparse : parse source with
    | ok p => simp [hparse, Except.map] at hfails
    | error f => simpa [hparse, Except.map] using hfails
  exact ⟨he, ((parse_error_isAt source).1 e he).2.2⟩

end Stencil
