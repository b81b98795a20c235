import Stencil.Proofs.Lookahead.Tag
import Stencil.Proofs.Written.Tree

/-!
Pieces of a text that is put together. A text that does not end in the middle of an escape or of an
opening brace has, before any other text, the pieces it has alone; only raw texts at the seam join.
-/
namespace Stencil

/-- A tag without its place. -/
def Tag.bare (t : Tag) : Tag := { t with start := 0, stop := {} }

/-- A piece without its place. -/
def Piece.bare : Piece → Piece
  | .raw text => .raw text
  | .tag t => .tag t.bare

/-- A text that is read as one tag, wherever it stands, before any text that starts with `rest`. -/
def IsTag (text rest : List Char) (t : Tag) : Prop :=
  ['{', '{'] <+: text ∧ ∀ (m : Mark) (tail : List Char), ∃ (u : Tag) (d : Cursor),
    (Cursor.mk m (text ++ (rest ++ tail))).tag = .ok (u, d) ∧ u.bare = t ∧ d.rest = rest ++ tail

/-- The text of a tag: its words in braces, with tildes on the sides where it trims. -/
def tagText (words : List Char) (before after : Bool) : List Char :=
  '{' :: '{' :: (tilde before ++ (words ++ (tilde after ++ ['}', '}'])))

theorem tagText_append (words : List Char) (before after : Bool) (rest : List Char) :
    tagText words before after ++ rest =
      '{' :: '{' :: (tilde before ++ (words ++ (tilde after ++ '}' :: '}' :: rest))) := by
  simp [tagText]

/-- The pieces of a text that has no fault in its tags. -/
inductive Tokens : List Char → List Piece → Prop
  | nil : Tokens [] []
  | tag {text t rest ps} : IsTag text rest t → Tokens rest ps →
      Tokens (text ++ rest) (.tag t :: ps)
  | raw {text ps} : text ≠ [] → ¬ ['{', '{'] <+: text → Tokens (rawText text).2 ps →
      Tokens text (.raw (rawText text).1 :: ps)

/-- Two lists of pieces, one after the other, with the raw texts where they meet joined. -/
def joinPieces : List Piece → List Piece → List Piece
  | [], qs => qs
  | [.raw a], .raw b :: qs => .raw (a ++ b) :: qs
  | p :: ps, qs => p :: joinPieces ps qs

/-! Raw texts. -/

/-- A text whose end takes no part in an escape or in the opening braces of a tag behind it. -/
structure Sealed (text : List Char) : Prop where
  noBackslash : text.getLast? ≠ some '\\'
  noBrace : text.getLast? ≠ some '{'

theorem Sealed.of_suffix {s text : List Char} (h : Sealed text) (hs : s <:+ text) : Sealed s := by
  obtain ⟨front, rfl⟩ := hs
  cases s with
  | nil => exact ⟨by simp, by simp⟩
  | cons c s =>
    have hlast : (front ++ c :: s).getLast? = (c :: s).getLast? :=
      List.getLast?_append_of_ne_nil front (by simp)
    exact ⟨hlast ▸ h.noBackslash, hlast ▸ h.noBrace⟩

/-- No escape and no pair of braces reaches beyond a sealed text. -/
theorem Sealed.not_prefix_append {s word : List Char} (h : Sealed s) (hne : s ≠ [])
    (hword : ∀ c ∈ word, c = '\\' ∨ c = '{') (hs : ¬ word <+: s) (b : List Char) :
    ¬ word <+: s ++ b := by
  intro hb
  rcases List.prefix_or_prefix_of_prefix hb (List.prefix_append s b) with hs' | hs'
  · exact hs hs'
  · have hlast := List.getLast?_eq_some_getLast hne
    rcases hword _ (hs'.subset (List.getLast_mem hne)) with hc | hc
    · exact h.noBackslash (hc ▸ hlast)
    · exact h.noBrace (hc ▸ hlast)

/-- A raw text ends at a tag or with the text. -/
theorem rawText_stops (s : List Char) :
    (rawText s).2 <:+ s ∧ ((rawText s).2 = [] ∨ ['{', '{'] <+: (rawText s).2) := by
  fun_induction rawText s with
  | case1 => exact ⟨List.suffix_rfl, .inl rfl⟩
  | case2 rest => exact ⟨⟨['\\', '\\'], rfl⟩, .inr ⟨rest, rfl⟩⟩
  | case3 rest ih => exact ⟨ih.1.trans ⟨['\\', '{', '{'], rfl⟩, ih.2⟩
  | case4 rest => exact ⟨List.suffix_rfl, .inr ⟨rest, rfl⟩⟩
  | case5 c rest _ _ _ ih => exact ⟨ih.1.trans (List.suffix_cons c rest), ih.2⟩

theorem rawText_of_braces {s : List Char} (h : ['{', '{'] <+: s) : rawText s = ([], s) := by
  obtain ⟨rest, rfl⟩ := h
  rw [List.cons_append, List.cons_append, List.nil_append, rawText]

theorem rawText_ne_nil {s : List Char} (hne : s ≠ []) (h : ¬ ['{', '{'] <+: s) :
    (rawText s).1 ≠ [] := by
  fun_cases rawText s with
  | case1 => exact absurd rfl hne
  | case2 => simp
  | case3 => simp
  | case4 rest => exact absurd ⟨rest, rfl⟩ h
  | case5 => simp

/-- What follows a sealed text goes on its raw text, if that runs to its end. -/
theorem rawText_append {s : List Char} (h : Sealed s) (b : List Char) :
    rawText (s ++ b) =
      if (rawText s).2 = [] then ((rawText s).1 ++ (rawText b).1, (rawText b).2)
      else ((rawText s).1, (rawText s).2 ++ b) := by
  fun_induction rawText s with
  | case1 => rfl
  | case2 rest => rfl
  | case3 rest ih =>
    simp only [List.cons_append, rawText, ih (h.of_suffix ⟨['\\', '{', '{'], rfl⟩)]
    split <;> simp_all
  | case4 rest => rfl
  | case5 c rest hescaped hraw htag ih =>
    have hrest := ih (h.of_suffix (List.suffix_cons c rest))
    -- an escape or a tag that starts here cannot reach beyond the sealed text
    have hreach (word : List Char) (hword : ∀ d ∈ word, d = '\\' ∨ d = '{')
        (hs : ¬ word <+: c :: rest) : ¬ word <+: c :: (rest ++ b) :=
      h.not_prefix_append (by simp) hword hs b
    have hcons : rawText (c :: (rest ++ b)) =
        (c :: (rawText (rest ++ b)).1, (rawText (rest ++ b)).2) := by
      apply Written.rawText_cons
      · refine hreach ['{', '{'] (by simp) ?_
        rintro ⟨more, hmore⟩
        cases hmore
        exact htag more rfl rfl
      · rintro rfl
        constructor
        · intro hb
          refine hreach ['\\', '{', '{'] (by simp) ?_ (List.cons_prefix_cons.mpr ⟨rfl, hb⟩)
          rintro ⟨more, hmore⟩
          cases hmore
          exact hraw more rfl rfl
        · intro hb
          refine hreach ['\\', '\\', '{', '{'] (by simp) ?_
            (List.cons_prefix_cons.mpr ⟨rfl, hb⟩)
          rintro ⟨more, hmore⟩
          cases hmore
          exact hescaped more rfl rfl
    rw [List.cons_append, hcons, hrest]
    split <;> simp_all

/-! The pieces of a text, wherever it stands. -/

namespace Cursor

/-- The pieces of a text that starts with a raw text. -/
theorem pieces_of_raw {c : Cursor} (hne : c.rest ≠ []) (hb : ¬ ['{', '{'] <+: c.rest) :
    c.pieces = (.raw (rawText c.rest).1 :: (c.reach (rawText c.rest).2).pieces.1,
      (c.reach (rawText c.rest).2).pieces.2) := by
  have hfollows : c.follows ['{', '{'] = false := by
    rw [Bool.eq_false_iff]
    exact fun h => hb (List.isPrefixOf_iff_prefix.mp h)
  rw [pieces]
  simp only [hne, hfollows, dif_neg, not_false_eq_true, Bool.false_eq_true]

end Cursor

theorem IsTag.append {text rest : List Char} {t : Tag} (h : IsTag text rest t) (b : List Char) :
    IsTag text (rest ++ b) t := by
  refine ⟨h.1, fun m tail => ?_⟩
  rw [List.append_assoc]
  exact h.2 m (b ++ tail)

/-- A tag that was read is read wherever it stands. -/
theorem exists_isTag {c d : Cursor} {t : Tag} (h : c.tag = .ok (t, d))
    (hopen : c.follows ['{', '{']) :
    ∃ text, c.rest = text ++ d.rest ∧ IsTag text d.rest t.bare := by
  obtain ⟨s, hs, hread⟩ := c.tag_text h hopen
  refine ⟨tagText s t.trimBefore t.trimAfter, by rw [hs, tagText_append], ⟨_, rfl⟩, ?_⟩
  intro m tail
  obtain ⟨e, he, hrest⟩ := hread m t.trimBefore t.trimAfter (d.rest ++ tail) (absurd rfl) id
    (absurd rfl)
  rw [tagText_append]
  exact ⟨_, e, he, rfl, hrest⟩

theorem IsTag.read {text rest : List Char} {t : Tag} (h : IsTag text rest t) : t.body.Read := by
  obtain ⟨u, d, hu, rfl, -⟩ := h.2 {} []
  have hread : u.body.Read := Cursor.read_tag hu
  exact hread

/-- A tag is its words in braces, with a tilde on each side where it trims. -/
theorem IsTag.exists_words {text rest : List Char} {t : Tag} (h : IsTag text rest t) :
    ∃ words, text = tagText words t.trimBefore t.trimAfter := by
  obtain ⟨u, d, hu, rfl, hd⟩ := h.2 {} []
  have hopen : (Cursor.mk {} (text ++ (rest ++ []))).follows ['{', '{'] :=
    List.isPrefixOf_iff_prefix.mpr (h.1.trans (List.prefix_append _ _))
  obtain ⟨s, hs, -⟩ := Cursor.tag_text hu hopen
  rw [hd, ← tagText_append] at hs
  exact ⟨s, List.append_cancel_right hs⟩

theorem IsTag.closed {text rest : List Char} {t : Tag} (h : IsTag text rest t) :
    Sealed text := by
  obtain ⟨words, rfl⟩ := h.exists_words
  obtain ⟨front, hfront⟩ : ∃ front, tagText words t.trimBefore t.trimAfter = front ++ ['}'] :=
    ⟨'{' :: '{' :: (tilde t.trimBefore ++ (words ++ (tilde t.trimAfter ++ ['}']))), by
      simp [tagText]⟩
  rw [hfront]
  exact ⟨by simp, by simp⟩

/-- Tildes may be put on the sides of a tag that has none. -/
theorem IsTag.withTildes {s : List Char} {body : TagBody}
    (h : IsTag (tagText s false false) [] ⟨body, 0, {}, false, false⟩) (hne : s ≠ [])
    (hhead : s.head? ≠ some '~') (hlast : s.getLast? ≠ some '~') (before after : Bool) :
    IsTag (tagText s before after) [] ⟨body, 0, {}, before, after⟩ := by
  obtain ⟨u, d, hu, hbare, hd⟩ := h.2 {} []
  obtain ⟨s', hs, hread⟩ := Cursor.tag_text hu
    (List.isPrefixOf_iff_prefix.mpr (h.1.trans (List.prefix_append _ _)))
  have hbefore : u.trimBefore = false := congrArg Tag.trimBefore hbare
  have hafter : u.trimAfter = false := congrArg Tag.trimAfter hbare
  have hbody : u.body = body := congrArg Tag.body hbare
  rw [hbefore, hafter] at hread
  rw [hbefore, hafter, hd] at hs
  obtain rfl : s = s' := by simpa [tagText] using hs
  refine ⟨⟨_, rfl⟩, fun m tail => ?_⟩
  obtain ⟨e, he, hrest⟩ := hread m before after tail (fun _ => ⟨hne, hhead⟩) nofun
    fun _ => ⟨hne, hlast⟩
  rw [List.nil_append, tagText_append]
  exact ⟨_, e, he, by rw [hbody]; rfl, hrest⟩

theorem tokens_pieces (c : Cursor) {stop : Mark} (h : c.pieces.2 = .ok stop) :
    Tokens c.rest (c.pieces.1.map Piece.bare) := by
  fun_induction Cursor.pieces c with
  | case1 c hnil => rw [hnil]; exact .nil
  | case2 => cases h
  | case3 c _ hopen t d ht _ _ ih =>
    obtain ⟨text, htext, htag⟩ := exists_isTag ht hopen
    rw [htext]
    exact .tag htag (ih h)
  | case4 c hne hopen raw _ _ ih =>
    have hrest := ih h
    rw [Cursor.rest_reach (rawText_stops c.rest).1] at hrest
    refine .raw hne (fun hb => hopen (List.isPrefixOf_iff_prefix.mpr hb)) hrest

theorem Tokens.pieces {text : List Char} {ps : List Piece} (h : Tokens text ps) {c : Cursor}
    (hc : c.rest = text) :
    c.pieces.1.map Piece.bare = ps ∧ ∃ stop, c.pieces.2 = .ok stop := by
  induction h generalizing c with
  | nil =>
    obtain ⟨m, s⟩ := c
    obtain rfl : s = [] := hc
    rw [Cursor.pieces_nil]
    exact ⟨rfl, m, rfl⟩
  | @tag text t rest ps htag hrest ih =>
    obtain ⟨m, s⟩ := c
    obtain rfl : s = text ++ rest := hc
    obtain ⟨u, d, hu, rfl, hd⟩ := htag.2 m []
    rw [List.append_nil] at hu hd
    rw [Cursor.pieces_tag (htag.1.trans (List.prefix_append _ _)) hu]
    obtain ⟨hps, hstop⟩ := ih hd
    exact ⟨by rw [List.map_cons, hps]; rfl, hstop⟩
  | @raw text ps hne hb hrest ih =>
    subst hc
    rw [Cursor.pieces_of_raw hne hb]
    obtain ⟨hps, hstop⟩ := ih (Cursor.rest_reach (rawText_stops c.rest).1)
    exact ⟨by rw [List.map_cons, hps]; rfl, hstop⟩

/-! Texts one after the other. -/

theorem IsTag.ne_nil {text rest : List Char} {t : Tag} (h : IsTag text rest t) : text ≠ [] := by
  rintro rfl
  simpa using h.1.length_le

theorem Tokens.eq_nil {text : List Char} {ps : List Piece} (h : Tokens text ps) :
    ps = [] ↔ text = [] := by
  cases h with
  | nil => simp
  | tag htag => simp [htag.ne_nil]
  | raw hne => simp [hne]

theorem joinPieces_nil (ps : List Piece) : joinPieces ps [] = ps := by
  induction ps with
  | nil => rfl
  | cons p ps ih =>
    cases p <;> cases ps <;> simp_all [joinPieces]

theorem joinPieces_cons {ps : List Piece} (h : ps ≠ []) (p : Piece) (qs : List Piece) :
    joinPieces (p :: ps) qs = p :: joinPieces ps qs := by
  cases p <;> cases ps <;> simp_all [joinPieces]

theorem joinPieces_tag (ps : List Piece) (t : Tag) (qs : List Piece) :
    joinPieces ps (.tag t :: qs) = ps ++ .tag t :: qs := by
  induction ps with
  | nil => rfl
  | cons p ps ih =>
    cases ps with
    | nil => cases p <;> rfl
    | cons q ps => rw [joinPieces_cons (by simp), ih]; rfl

theorem joinPieces_tag_cons (t : Tag) (ps qs : List Piece) :
    joinPieces (.tag t :: ps) qs = .tag t :: joinPieces ps qs := by
  cases ps <;> rfl

/-- Behind a tag it does not matter what stands before it. -/
theorem joinPieces_append_tag (xs : List Piece) (t : Tag) (ps qs : List Piece) :
    joinPieces (xs ++ .tag t :: ps) qs = xs ++ .tag t :: joinPieces ps qs := by
  induction xs with
  | nil => exact joinPieces_tag_cons t ps qs
  | cons x xs ih => rw [List.cons_append, joinPieces_cons (by simp), ih, List.cons_append]

theorem joinPieces_raw (ps : List Piece) (a b : List Char) (qs : List Piece) :
    joinPieces (ps ++ [.raw a]) (.raw b :: qs) = ps ++ .raw (a ++ b) :: qs := by
  induction ps with
  | nil => rfl
  | cons p ps ih => rw [List.cons_append, joinPieces_cons (by simp), ih, List.cons_append]

/-- The pieces of a text do not change when another text follows, but for the raw texts that
meet. -/
theorem Tokens.append {a b : List Char} {ps qs : List Piece} (ha : Tokens a ps) (hb : Tokens b qs)
    (hs : Sealed a) : Tokens (a ++ b) (joinPieces ps qs) := by
  induction ha with
  | nil => exact hb
  | @tag text t rest ps htag hrest ih =>
    rw [List.append_assoc, joinPieces_tag_cons]
    exact .tag (htag.append b) (ih (hs.of_suffix (List.suffix_append _ _)))
  | @raw text ps hne hbraces hrest ih =>
    have hne' : text ++ b ≠ [] := by simp [hne]
    have hbraces' := hs.not_prefix_append hne (by simp) hbraces b
    have htext := rawText_append hs b
    by_cases hend : (rawText text).2 = []
    · obtain rfl := hrest.eq_nil.mpr hend
      rw [if_pos hend] at htext
      have hjoin (qs' : List Piece) (hq : Tokens (rawText b).2 qs') : Tokens (text ++ b)
          (.raw ((rawText text).1 ++ (rawText b).1) :: qs') := by
        have := Tokens.raw hne' hbraces' (by rwa [htext])
        rwa [htext] at this
      cases hb with
      | nil => simpa [joinPieces, rawText] using hjoin [] .nil
      | @tag tagText t more qs htag hq =>
        rw [rawText_of_braces (htag.1.trans (List.prefix_append _ _)), List.append_nil] at hjoin
        exact hjoin _ (.tag htag hq)
      | raw hne hb hq => exact hjoin _ hq
    · rw [if_neg hend] at htext
      rw [joinPieces_cons (mt hrest.eq_nil.mp hend)]
      have := Tokens.raw hne' hbraces' (by
        rw [htext]
        exact ih (hs.of_suffix (rawText_stops text).1))
      rwa [htext] at this

/-! White space control. -/

/-- A text without white space on the sides where a tag asks for that. -/
def trimSides (atStart atEnd : Bool) (text : List Char) : List Char :=
  let text := if atStart then trimStart text else text
  if atEnd then trimEnd text else text

/-- What remains of a raw text that was trimmed to `text`. -/
def keptRaw (text : List Char) : List Piece := if text.isEmpty then [] else [.raw text]

theorem trimPieces_raw (trim : Bool) (text : List Char) (rest : List Piece) :
    trimPieces trim (.raw text :: rest) =
      keptRaw (trimSides trim (trimsBefore rest) text) ++ trimPieces false rest := by
  change (if (trimSides trim (trimsBefore rest) text).isEmpty then trimPieces false rest
    else .raw (trimSides trim (trimsBefore rest) text) :: trimPieces false rest) = _
  rw [keptRaw]
  split <;> rfl

@[simp] theorem trimsBefore_bare (ps : List Piece) :
    trimsBefore (ps.map Piece.bare) = trimsBefore ps := by
  cases ps with
  | nil => rfl
  | cons p ps => cases p <;> rfl

@[simp] theorem keptRaw_bare (text : List Char) :
    (keptRaw text).map Piece.bare = keptRaw text := by
  rw [keptRaw]
  split <;> rfl

theorem trimPieces_bare (trim : Bool) (ps : List Piece) :
    trimPieces trim (ps.map Piece.bare) = (trimPieces trim ps).map Piece.bare := by
  induction ps generalizing trim with
  | nil => rfl
  | cons p ps ih =>
    cases p with
    | raw text =>
      rw [List.map_cons, Piece.bare, trimPieces_raw, trimPieces_raw, ih, trimsBefore_bare,
        List.map_append, keptRaw_bare]
    | tag t =>
      rw [List.map_cons, Piece.bare, trimPieces, trimPieces, ih]
      rfl

/-- A tag that does not trim the text before it leaves the pieces before it as they are. -/
theorem trimPieces_append_tag {t : Tag} (ht : t.trimBefore = false) (trim : Bool)
    (ps qs : List Piece) :
    trimPieces trim (ps ++ .tag t :: qs) =
      trimPieces trim ps ++ .tag t :: trimPieces t.trimAfter qs := by
  induction ps generalizing trim with
  | nil => rfl
  | cons p ps ih =>
    have hbefore : trimsBefore (ps ++ .tag t :: qs) = trimsBefore ps := by
      cases ps with
      | nil => exact ht
      | cons q ps => cases q <;> rfl
    cases p with
    | raw text =>
      rw [List.cons_append, trimPieces_raw, trimPieces_raw, hbefore, ih, List.append_assoc]
    | tag u => rw [List.cons_append, trimPieces, trimPieces, ih, List.cons_append]

end Stencil
