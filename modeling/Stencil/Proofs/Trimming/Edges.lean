import Stencil.Proofs.Concatenation.Behind
import Stencil.Proofs.Concatenation.Seam

/-!
White space control at the ends of a text. A tag that trims the text beside it changes the first or
the last raw text of that and nothing else, and so the first or the last statement of its program.
-/
namespace Stencil

/-! Programs. -/

/-- The statement of a raw text, or none if it is empty. -/
def keptText (text : List Char) : Program :=
  if text.isEmpty then [] else [.raw (String.ofList text)]

/-- A program without the white space that it starts with. -/
def trimProgramStart : Program → Program
  | .raw text :: rest => keptText (trimStart text.toList) ++ rest
  | p => p

/-- A program without the white space that it ends with. -/
def trimProgramEnd (p : Program) : Program :=
  match p.getLast? with
  | some (.raw text) => p.dropLast ++ keptText (trimEnd text.toList)
  | _ => p

/-- A program without the white space on the sides where a tag asks for that. -/
def trimProgram (atStart atEnd : Bool) (p : Program) : Program :=
  let p := if atStart then trimProgramStart p else p
  if atEnd then trimProgramEnd p else p

@[simp] theorem trimProgram_false_false (p : Program) : trimProgram false false p = p := rfl

theorem trimProgramStart_of_not_isRaw {p : Program} (h : ∀ s ∈ p.head?, ¬ Written.isRaw s) :
    trimProgramStart p = p := by
  unfold trimProgramStart
  split
  next => exact absurd rfl (h _ rfl)
  next => rfl

theorem trimProgramEnd_of_not_isRaw {p : Program} (h : ∀ s ∈ p.getLast?, ¬ Written.isRaw s) :
    trimProgramEnd p = p := by
  unfold trimProgramEnd
  split
  next hlast => exact absurd rfl (h _ hlast)
  next => rfl

/-- What is a single statement and no raw text has no white space on its sides. -/
theorem trimProgram_singleton {s : Statement} (h : ¬ Written.isRaw s) (atStart atEnd : Bool) :
    trimProgram atStart atEnd [s] = [s] := by
  have hstart : trimProgramStart [s] = [s] := trimProgramStart_of_not_isRaw (by simpa using h)
  have hend : trimProgramEnd [s] = [s] := trimProgramEnd_of_not_isRaw (by simpa using h)
  cases atStart <;> cases atEnd <;> simp [trimProgram, hstart, hend]

theorem programDepth_keptText (text : List Char) : programDepth (keptText text) = 0 := by
  rw [keptText]
  split <;> simp [programDepth, Statement.depth]

theorem programDepth_trimProgram (atStart atEnd : Bool) (p : Program) :
    programDepth (trimProgram atStart atEnd p) = programDepth p := by
  have hstart (p : Program) : programDepth (trimProgramStart p) = programDepth p := by
    unfold trimProgramStart
    split
    · rw [programDepth_append, programDepth_keptText, programDepth, Statement.depth]
    · rfl
  have hend (p : Program) : programDepth (trimProgramEnd p) = programDepth p := by
    unfold trimProgramEnd
    split
    next text hlast =>
      obtain ⟨front, rfl⟩ := List.getLast?_eq_some_iff.mp hlast
      rw [List.dropLast_concat, programDepth_append, programDepth_append, programDepth_keptText,
        programDepth_singleton, Statement.depth]
    next => rfl
  cases atStart <;> cases atEnd <;> simp [trimProgram, hstart, hend]

/-! Pieces. -/

/-- Pieces that start with a raw text, with its start trimmed. -/
def trimFirst : List Piece → List Piece
  | .raw text :: rest => keptRaw (trimStart text) ++ rest
  | ps => ps

/-- Pieces that end with a raw text, with its end trimmed. -/
def trimLast : List Piece → List Piece
  | [] => []
  | [.raw text] => keptRaw (trimEnd text)
  | p :: ps => p :: trimLast ps

/-- The pieces of a text between two tags, as white space control leaves them. -/
def trimEdges (atStart atEnd : Bool) (ps : List Piece) : List Piece :=
  if atEnd then trimLast (trimPieces atStart ps) else trimPieces atStart ps

theorem trimLast_cons {ps : List Piece} (h : ps ≠ []) (p : Piece) :
    trimLast (p :: ps) = p :: trimLast ps := by
  obtain ⟨q, qs, rfl⟩ := List.exists_cons_of_ne_nil h
  cases p <;> rfl

theorem trimLast_append {ps : List Piece} (h : ps ≠ []) (front : List Piece) :
    trimLast (front ++ ps) = front ++ trimLast ps := by
  induction front with
  | nil => rfl
  | cons p front ih => rw [List.cons_append, trimLast_cons (by simp [h]), ih, List.cons_append]

theorem trimLast_tag (front : List Piece) (t : Tag) :
    trimLast (front ++ [.tag t]) = front ++ [.tag t] := trimLast_append (by simp) front

theorem Tokens.ne_nil_of_raw_mem {text : List Char} {ps : List Piece} (h : Tokens text ps) :
    ∀ raw, .raw raw ∈ ps → raw ≠ [] := by
  induction h with
  | nil => simp
  | tag _ _ ih => simpa using ih
  | raw hne hb _ ih =>
    intro raw hmem
    rcases List.mem_cons.mp hmem with hraw | hmem
    · cases hraw
      exact rawText_ne_nil hne hb
    · exact ih raw hmem

theorem keptRaw_eq_nil {text : List Char} : keptRaw text = [] ↔ text = [] := by
  simp [keptRaw]

theorem trimLast_keptRaw (text : List Char) :
    trimLast (keptRaw text) = keptRaw (trimEnd text) := by
  cases text with
  | nil => rfl
  | cons c text => rfl

/-- The order in which the two ends of a text are trimmed does not matter. -/
theorem trimStart_trimEnd (text : List Char) :
    trimStart (trimEnd text) = trimEnd (trimStart text) := by
  by_cases hblank : Blank text
  · rw [trimEnd_eq_nil.mpr hblank, trimStart_eq_nil.mpr hblank]
    rfl
  · obtain ⟨b, hb, htext⟩ : ∃ b, Blank b ∧ text = b ++ trimStart text :=
      ⟨_, List.all_eq_true.mp List.all_takeWhile, List.takeWhile_append_dropWhile.symm⟩
    have hstop := stops_dropWhile isSpace text
    have hne : trimStart text ≠ [] := mt trimStart_eq_nil.mp hblank
    rw [← trimStart] at hstop
    obtain ⟨c, rest, hrest⟩ := List.exists_cons_of_ne_nil hne
    rw [hrest] at htext hstop ⊢
    have hc : isSpace c = false := stops_cons.mp hstop
    have hend : ∃ more, trimEnd (c :: rest) = c :: more := by
      by_cases hmore : Blank rest
      · refine ⟨[], (hmore.trimEnd_append [c]).trans ?_⟩
        simp [trimEnd, hc]
      · exact ⟨trimEnd rest, trimEnd_append hmore [c]⟩
    rw [htext, trimEnd_append (not_blank_of_mem List.mem_cons_self hc), hb.trimStart_append]
    obtain ⟨more, hmore⟩ := hend
    rw [hmore, trimStart, List.dropWhile_cons_of_neg (by simp [hc])]

section
variable {ps : List Piece} (hne : ∀ text, .raw text ∈ ps → text ≠ [])
include hne

/-- Of some pieces something remains, but for a blank text that a tag before it trims. -/
theorem trimPieces_eq_nil {trim : Bool} (h : trimPieces trim ps = []) :
    ps = [] ∨ trim ∧ ∃ text, ps = [.raw text] ∧ Blank text := by
  induction ps generalizing trim with
  | nil => exact .inl rfl
  | cons p ps ih =>
    cases p with
    | tag t => cases h
    | raw text =>
      rw [trimPieces_raw, List.append_eq_nil_iff, keptRaw_eq_nil] at h
      obtain ⟨htext, hrest⟩ := h
      obtain rfl : ps = [] := by
        rcases ih (fun text htext => hne text (.tail _ htext)) hrest with hps | ⟨hfalse, -⟩
        · exact hps
        · cases hfalse
      cases trim with
      | false => exact absurd htext (hne text List.mem_cons_self)
      | true => exact .inr ⟨rfl, text, rfl, trimStart_eq_nil.mp htext⟩

/-- A tag before some pieces trims the first of them. -/
theorem trimPieces_true : trimPieces true ps = trimFirst (trimPieces false ps) := by
  cases ps with
  | nil => rfl
  | cons p ps =>
    cases p with
    | tag t => rfl
    | raw text =>
      have htext := hne text List.mem_cons_self
      have hsides : trimSides true (trimsBefore ps) text =
          trimStart (trimSides false (trimsBefore ps) text) := by
        cases trimsBefore ps with
        | false => rfl
        | true => exact (trimStart_trimEnd text).symm
      rw [trimPieces_raw, trimPieces_raw, hsides]
      by_cases hnil : trimSides false (trimsBefore ps) text = []
      · -- the text is trimmed away by the tag behind it, which then comes first
        rw [hnil]
        cases ps with
        | nil => exact absurd hnil htext
        | cons q ps =>
          cases q with
          | raw => exact absurd hnil htext
          | tag => rfl
      · rw [keptRaw, keptRaw, if_neg (mt List.isEmpty_iff.mp hnil), ← keptRaw]
        rfl

/-- A tag behind some pieces trims the last of them. -/
theorem trimPieces_before_tag (trim : Bool) (t : Tag) (qs : List Piece) :
    trimPieces trim (ps ++ .tag t :: qs) =
      trimEdges trim t.trimBefore ps ++ .tag t :: trimPieces t.trimAfter qs := by
  cases hbefore : t.trimBefore with
  | false => exact trimPieces_append_tag hbefore trim ps qs
  | true =>
    rw [trimEdges, if_pos rfl]
    induction ps generalizing trim with
    | nil => rfl
    | cons p ps ih =>
      have hrest : ∀ text, .raw text ∈ ps → text ≠ [] := fun text htext => hne text (.tail _ htext)
      cases p with
      | tag u =>
        rw [List.cons_append, trimPieces, ih hrest, trimPieces]
        by_cases hnil : trimPieces u.trimAfter ps = []
        · rw [hnil]
          rfl
        · rw [trimLast_cons hnil]
          rfl
      | raw text =>
        rw [List.cons_append, trimPieces_raw, ih hrest, trimPieces_raw]
        cases ps with
        | nil =>
          change keptRaw (trimSides trim t.trimBefore text) ++ _ =
            trimLast (keptRaw (trimSides trim false text) ++ []) ++ _
          rw [hbefore, List.append_nil, trimLast_keptRaw]
          rfl
        | cons q ps =>
          have hbehind : trimsBefore (q :: ps ++ .tag t :: qs) = trimsBefore (q :: ps) := by
            cases q <;> rfl
          have hnil : trimPieces false (q :: ps) ≠ [] := by
            intro hnil
            rcases trimPieces_eq_nil hrest hnil with h | ⟨h, -⟩ <;> cases h
          rw [hbehind, trimLast_append hnil, List.append_assoc]

end

/-- What stands before a tag does not trim what stands behind it. -/
theorem trimPieces_behind_tag (front : List Piece) (t : Tag) (trim : Bool) (qs : List Piece) :
    trimPieces trim (front ++ .tag t :: qs) =
      trimPieces trim (front ++ [.tag t]) ++ trimPieces t.trimAfter qs := by
  induction front generalizing trim with
  | nil => rfl
  | cons p front ih =>
    have hnext : trimsBefore (front ++ .tag t :: qs) = trimsBefore (front ++ [.tag t]) := by
      cases front with
      | nil => rfl
      | cons q front => cases q <;> rfl
    cases p with
    | raw text =>
      rw [List.cons_append, List.cons_append, trimPieces_raw, trimPieces_raw, hnext, ih,
        List.append_assoc]
    | tag u => rw [List.cons_append, List.cons_append, trimPieces, trimPieces, ih, List.cons_append]

theorem exists_trimPieces_tag (front : List Piece) (t : Tag) (trim : Bool) :
    ∃ kept, trimPieces trim (front ++ [.tag t]) = kept ++ [.tag t] := by
  induction front generalizing trim with
  | nil => exact ⟨[], rfl⟩
  | cons p front ih =>
    cases p with
    | raw text =>
      obtain ⟨kept, hkept⟩ := ih false
      rw [List.cons_append, trimPieces_raw, hkept, ← List.append_assoc]
      exact ⟨_, rfl⟩
    | tag u =>
      obtain ⟨kept, hkept⟩ := ih u.trimAfter
      rw [List.cons_append, trimPieces, hkept]
      exact ⟨.tag u :: kept, rfl⟩

/-! The programs of trimmed pieces. -/

theorem flat_keptRaw (text : List Char) : ∀ p ∈ keptRaw text, p.Flat := by
  rw [keptRaw]
  split
  · simp
  · simp [Piece.Flat]

theorem flat_trimLast {ps : List Piece} (h : ∀ p ∈ ps, p.Flat) : ∀ p ∈ trimLast ps, p.Flat := by
  rcases List.eq_nil_or_concat' ps with rfl | ⟨ps, x, rfl⟩
  · exact h
  · rw [trimLast_append (by simp)]
    rw [List.forall_mem_append] at h ⊢
    refine ⟨h.1, ?_⟩
    cases x with
    | tag t => exact h.2
    | raw text => exact flat_keptRaw _

theorem flat_trimEdges {ps : List Piece} (h : ∀ p ∈ ps, p.Flat) (atStart atEnd : Bool) :
    ∀ p ∈ trimEdges atStart atEnd ps, p.Flat := by
  rw [trimEdges]
  split
  · exact flat_trimLast (flat_trimPieces h atStart)
  · exact flat_trimPieces h atStart

namespace Nesting

section
variable {ps : List Piece} {p : Program} (hps : ∀ x ∈ ps, x.Flat) (h : run {} ps = .ok ⟨[], p⟩)
include hps h

theorem run_keptRaw_append (text : List Char) :
    run {} (keptRaw text ++ ps) = .ok ⟨[], keptText text ++ p⟩ := by
  cases text with
  | nil => exact h
  | cons c text =>
    change run ⟨[], []⟩ (.raw (c :: text) :: ps) = _
    rw [run_raw hps, h]
    rfl

theorem run_trimFirst : run {} (trimFirst ps) = .ok ⟨[], trimProgramStart p⟩ := by
  cases ps with
  | nil => cases h; rfl
  | cons x ps =>
    cases x with
    | tag t => rwa [trimProgramStart_of_not_isRaw (not_isRaw_head hps h)]
    | raw text =>
      have hrest : ∀ x ∈ ps, x.Flat := fun x hx => hps x (.tail _ hx)
      obtain ⟨rest, hrun, rfl⟩ := exists_of_run_raw hrest h
      rw [trimProgramStart, String.toList_ofList]
      exact run_keptRaw_append hrest hrun _

theorem run_trimLast : run {} (trimLast ps) = .ok ⟨[], trimProgramEnd p⟩ := by
  rcases List.eq_nil_or_concat' ps with rfl | ⟨ps, x, rfl⟩
  · cases h
    rfl
  · cases x with
    | tag t => rwa [trimLast_tag, trimProgramEnd_of_not_isRaw (not_isRaw_getLast hps h)]
    | raw text =>
      obtain ⟨⟨blocks, present⟩, hn, hstep, -⟩ := exists_of_run_append hps h
      cases hstep
      have hkept : run {} (keptRaw (trimEnd text)) = .ok ⟨[], keptText (trimEnd text)⟩ := by
        simpa using @run_keptRaw_append [] [] (by simp) rfl (trimEnd text)
      have hend : trimProgramEnd (present ++ [.raw (String.ofList text)]) =
          present ++ keptText (trimEnd text) := by
        simp [trimProgramEnd]
      rw [trimLast_append (by simp), hend]
      exact run_append_of_ok (flat_keptRaw _) hn hkept

end

/-- The edges of the pieces of a text become the edges of its program. -/
theorem run_trimEdges {text : List Char} {ps : List Piece} (ht : Tokens text ps)
    (hps : ∀ x ∈ ps, x.Flat) {p : Program} (h : run {} (trimPieces false ps) = .ok ⟨[], p⟩)
    (atStart atEnd : Bool) :
    run {} (trimEdges atStart atEnd ps) = .ok ⟨[], trimProgram atStart atEnd p⟩ := by
  have hstart : run {} (trimPieces atStart ps) =
      .ok ⟨[], if atStart then trimProgramStart p else p⟩ := by
    cases atStart with
    | false => exact h
    | true =>
      rw [trimPieces_true ht.ne_nil_of_raw_mem]
      exact run_trimFirst (flat_trimPieces hps false) h
  cases atEnd with
  | false => exact hstart
  | true => exact run_trimLast (flat_trimPieces hps atStart) hstart

end Nesting
end Stencil
