import Stencil.Proofs.Pieces
import Mathlib.Data.List.DropRight

/-!
White space control at the seam of two texts. Where the first text does not end, but for white
space, in a tag that trims what follows, and the second does not start with one that trims what is
before, the pieces of both are trimmed as each text's are alone.
-/
namespace Stencil

/-! White space at the ends of texts. -/

section
variable {s t : List Char}

theorem trimStart_eq_nil : trimStart s = [] ↔ Blank s := List.dropWhile_eq_nil_iff

theorem trimEnd_eq_nil : trimEnd s = [] ↔ Blank s := List.rdropWhile_eq_nil_iff

theorem Blank.trimStart_append (h : Blank s) (t : List Char) :
    Stencil.trimStart (s ++ t) = Stencil.trimStart t := List.dropWhile_append_of_pos h

theorem trimStart_append (h : ¬ Blank s) (t : List Char) :
    trimStart (s ++ t) = trimStart s ++ t := by
  have hne : ¬ (s.dropWhile isSpace).isEmpty := by
    rw [List.isEmpty_iff]
    exact mt trimStart_eq_nil.mp h
  rw [trimStart, List.dropWhile_append, if_neg hne]
  rfl

theorem Blank.trimEnd_append (h : Blank t) (s : List Char) : trimEnd (s ++ t) = trimEnd s := by
  have ht : ∀ c ∈ t.reverse, isSpace c := fun c hc => h c (List.mem_reverse.mp hc)
  rw [trimEnd, List.reverse_append, List.dropWhile_append_of_pos ht]
  rfl

theorem trimEnd_append (h : ¬ Blank t) (s : List Char) : trimEnd (s ++ t) = s ++ trimEnd t := by
  have hne : ¬ (t.reverse.dropWhile isSpace).isEmpty := by
    rw [List.isEmpty_iff, ← List.reverse_eq_nil_iff]
    exact mt trimEnd_eq_nil.mp h
  rw [trimEnd, List.reverse_append, List.dropWhile_append, if_neg hne, List.reverse_append,
    List.reverse_reverse]
  rfl

theorem trimEnd_suffix (s t : List Char) : trimEnd t <:+ trimEnd (s ++ t) := by
  by_cases h : Blank t
  · rw [trimEnd_eq_nil.mpr h]
    exact List.nil_suffix
  · rw [trimEnd_append h]
    exact List.suffix_append _ _

theorem not_blank_of_mem {c : Char} (hc : c ∈ s) (h : isSpace c = false) : ¬ Blank s := fun hs => by
  simp [hs c hc] at h

end

/-- A raw text that shows nothing but white space is written as it is. -/
theorem eq_append_of_blank {s : List Char} (h : Blank (rawText s).1) :
    s = (rawText s).1 ++ (rawText s).2 := by
  fun_induction rawText s with
  | case1 => rfl
  | case2 rest => exact absurd h (not_blank_of_mem (c := '\\') (by simp) (by decide))
  | case3 rest ih => exact absurd h (not_blank_of_mem (c := '{') (by simp) (by decide))
  | case4 rest => rfl
  | case5 c rest _ _ _ ih =>
    have hrest : Blank (rawText rest).1 := fun d hd => h d (List.mem_cons_of_mem _ hd)
    simpa using ih hrest

/-- Pieces whose end is not trimmed by a tag before it, when `trim` says whether the tag before the
first trims. -/
inductive SettledAfter : Bool → List Piece → Prop
  | nil : SettledAfter false []
  | last {trim : Bool} {text} : text ≠ [] → (trim → ¬ Blank text) → SettledAfter trim [.raw text]
  | raw {trim text t ps} : SettledAfter (Tag.trimAfter t) ps →
      SettledAfter trim (.raw text :: .tag t :: ps)
  | tag {trim t ps} : SettledAfter (Tag.trimAfter t) ps → SettledAfter trim (.tag t :: ps)

/-- Pieces whose start is not trimmed away by a tag behind it. -/
def SettledBefore : List Piece → Prop
  | [] => True
  | .tag t :: _ => t.trimBefore = false
  | .raw text :: rest => text ≠ [] ∧ (trimsBefore rest → ¬ Blank text)

theorem trimSides_append {r b : List Char} {atStart atEnd : Bool} (hr : atStart → ¬ Blank r)
    (hb : atEnd → ¬ Blank b) :
    trimSides atStart atEnd (r ++ b) = trimSides atStart false r ++ trimSides false atEnd b := by
  have hstart : trimSides atStart false (r ++ b) = trimSides atStart false r ++ b := by
    cases atStart with
    | false => rfl
    | true => exact trimStart_append (hr rfl) b
  cases atEnd with
  | false => exact hstart
  | true =>
    change trimEnd (trimSides atStart false (r ++ b)) = _
    rw [hstart, trimEnd_append (hb rfl)]
    rfl

/-- Of a text that is not all white space something remains, on whichever sides it is trimmed. -/
theorem keptRaw_trimSides {text : List Char} (hne : text ≠ []) {atStart atEnd : Bool}
    (h : ¬ (atStart ∧ atEnd)) (hblank : atStart ∨ atEnd → ¬ Blank text) :
    keptRaw (trimSides atStart atEnd text) = [.raw (trimSides atStart atEnd text)] := by
  have hne' : trimSides atStart atEnd text ≠ [] := by
    cases atStart <;> cases atEnd
    · exact hne
    · exact mt trimEnd_eq_nil.mp (hblank (by simp))
    · exact mt trimStart_eq_nil.mp (hblank (by simp))
    · simp at h
  rw [keptRaw, if_neg (mt List.isEmpty_iff.mp hne')]

/-- A raw text before the seam, alone or joined with one behind it. -/
theorem trimPieces_raw_joinPieces {trim : Bool} {text : List Char} (hne : text ≠ [])
    (hblank : trim → ¬ Blank text) {qs : List Piece} (hq : SettledBefore qs) :
    trimPieces trim (joinPieces [.raw text] qs) =
      joinPieces (trimPieces trim [.raw text]) (trimPieces false qs) := by
  obtain ⟨kept, hkept⟩ : ∃ kept, kept = trimSides trim false text := ⟨_, rfl⟩
  have hraw : keptRaw kept = [.raw kept] := by
    rw [hkept]
    exact keptRaw_trimSides hne (by simp) (by simpa using hblank)
  have halone : trimPieces trim [.raw text] = [.raw kept] := by
    rw [trimPieces_raw, ← hraw, hkept]
    exact List.append_nil _
  rw [halone]
  cases qs with
  | nil => exact halone
  | cons q qs =>
    cases q with
    | tag t =>
      have ht : trimsBefore (.tag t :: qs) = false := hq
      rw [joinPieces_tag, trimPieces, joinPieces_tag, List.cons_append, List.nil_append,
        trimPieces_raw, ht, ← hkept, hraw]
      rfl
    | raw b =>
      obtain ⟨hb, hbefore⟩ := hq
      have hkeptB : keptRaw (trimSides false (trimsBefore qs) b) =
          [.raw (trimSides false (trimsBefore qs) b)] :=
        keptRaw_trimSides hb (by simp) (by simpa using hbefore)
      have hne' : kept ++ trimSides false (trimsBefore qs) b ≠ [] := by
        intro h
        rw [(List.append_eq_nil_iff.mp h).1] at hraw
        cases hraw
      change trimPieces trim (.raw (text ++ b) :: qs) = _
      rw [trimPieces_raw, trimSides_append hblank hbefore, ← hkept, trimPieces_raw false b,
        hkeptB, keptRaw, if_neg (mt List.isEmpty_iff.mp hne')]
      rfl

theorem trimPieces_joinPieces {trim : Bool} {ps qs : List Piece} (hp : SettledAfter trim ps)
    (hq : SettledBefore qs) :
    trimPieces trim (joinPieces ps qs) =
      joinPieces (trimPieces trim ps) (trimPieces false qs) := by
  induction hp with
  | nil => rfl
  | tag _ ih => rw [joinPieces_tag_cons, trimPieces, trimPieces, ih, joinPieces_tag_cons]
  | @raw trim text t ps _ ih =>
    have hjoin := joinPieces_append_tag [.raw text] t ps qs
    simp only [List.cons_append, List.nil_append] at hjoin
    rw [hjoin, trimPieces_raw, trimPieces_raw, trimPieces, trimPieces, ih, joinPieces_append_tag]
    rfl
  | last hne hblank => exact trimPieces_raw_joinPieces hne hblank hq

/-! Settled pieces from texts. -/

/-- The tildes of a tag stand inside its braces. -/
theorem IsTag.tildes {text rest : List Char} {t : Tag} (h : IsTag text rest t) :
    (t.trimBefore → ['{', '{', '~'] <+: text) ∧ (t.trimAfter → ['~', '}', '}'] <:+ text) := by
  obtain ⟨words, rfl⟩ := h.exists_words
  constructor
  · intro hbefore
    rw [tagText, show t.trimBefore = true from hbefore]
    exact ⟨_, rfl⟩
  · intro hafter
    rw [tagText, show t.trimAfter = true from hafter]
    exact ⟨'{' :: '{' :: (tilde t.trimBefore ++ words), by simp⟩

theorem Tokens.exists_tag {text : List Char} {ps : List Piece} (h : Tokens text ps)
    (hb : ['{', '{'] <+: text) :
    ∃ t qs, ps = .tag t :: qs ∧ (t.trimBefore → ['{', '{', '~'] <+: text) := by
  cases h with
  | nil => simp at hb
  | tag htag hrest =>
    exact ⟨_, _, rfl, fun hbefore => (htag.tildes.1 hbefore).trans (List.prefix_append _ _)⟩
  | raw hne hnot => exact absurd hb hnot

theorem trimEnd_of_suffix {s : List Char} (h : ['~', '}', '}'] <:+ s) : trimEnd s = s := by
  obtain ⟨front, rfl⟩ := h
  rw [trimEnd_append (not_blank_of_mem (c := '~') (by simp) (by decide))]
  rfl

theorem trimStart_of_tildeTag {s : List Char} (h : ['{', '{', '~'] <+: s) : trimStart s = s := by
  obtain ⟨rest, rfl⟩ := h
  rfl

theorem settledAfter_of_tokens {text : List Char} {ps : List Piece} (h : Tokens text ps)
    {trim : Bool} (htrim : trim → ¬ Blank text) (hend : ¬ ['~', '}', '}'] <:+ trimEnd text) :
    SettledAfter trim ps := by
  induction h generalizing trim with
  | nil =>
    cases trim with
    | false => exact .nil
    | true => exact absurd Blank.nil (htrim rfl)
  | @tag text t rest ps htag hrest ih =>
    refine .tag (ih (fun hafter hblank => hend ?_) fun hs => hend (hs.trans (trimEnd_suffix _ _)))
    have htext := htag.tildes.2 hafter
    rwa [hblank.trimEnd_append, trimEnd_of_suffix htext]
  | @raw text ps hne hbraces hrest ih =>
    obtain ⟨⟨front, hfront⟩, hnil | htag⟩ := rawText_stops text
    · obtain rfl := hrest.eq_nil.mpr hnil
      refine .last (rawText_ne_nil hne hbraces) fun ht hblank => htrim ht ?_
      have htext := eq_append_of_blank hblank
      rw [hnil, List.append_nil] at htext
      rwa [htext]
    · obtain ⟨t, qs, rfl, -⟩ := hrest.exists_tag htag
      have hsettled : SettledAfter false (.tag t :: qs) := ih nofun fun hs => hend (by
        rw [← hfront]
        exact hs.trans (trimEnd_suffix _ _))
      cases hsettled with
      | tag hqs => exact .raw hqs

theorem settledBefore_of_tokens {text : List Char} {ps : List Piece} (h : Tokens text ps)
    (hstart : ¬ ['{', '{', '~'] <+: trimStart text) : SettledBefore ps := by
  cases h with
  | nil => trivial
  | @tag text t rest ps htag hrest =>
    rw [SettledBefore, Bool.eq_false_iff]
    intro hbefore
    have htext := (htag.tildes.1 hbefore).trans (List.prefix_append text rest)
    exact hstart (by rwa [trimStart_of_tildeTag htext])
  | @raw text ps hne hbraces hrest =>
    refine ⟨rawText_ne_nil hne hbraces, fun hbefore hblank => hstart ?_⟩
    rcases (rawText_stops text).2 with hnil | htag
    · rw [hrest.eq_nil.mpr hnil] at hbefore
      cases hbefore
    · obtain ⟨t, qs, rfl, htilde⟩ := hrest.exists_tag htag
      have hrest' := htilde hbefore
      rwa [eq_append_of_blank hblank, hblank.trimStart_append, trimStart_of_tildeTag hrest']

end Stencil
