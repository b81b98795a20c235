import Stencil.Proofs.Words

/-!
Closing tags. A closing tag is matched with the block that it ends by the text of its path. Since
that text determines the path, the tag has the path of the tag that opened the block.
-/
namespace Stencil

/-- Pieces whose tags match, where blocks with the paths `opened` are open before, the innermost
first: every closing tag has the path of the innermost block that is open, and none remains. -/
inductive TagsMatch : List Path → List Piece → Prop
  | nil : TagsMatch [] []
  | raw {opened text rest} : TagsMatch opened rest → TagsMatch opened (.raw text :: rest)
  | statement {opened t s rest} : Tag.body t = .statement s → TagsMatch opened rest →
      TagsMatch opened (.tag t :: rest)
  | otherwise {opened t chain rest} : Tag.body t = .otherwise chain → TagsMatch opened rest →
      TagsMatch opened (.tag t :: rest)
  | opening {opened t inverted head rest} : Tag.body t = .opening inverted head →
      TagsMatch (head.path :: opened) rest → TagsMatch opened (.tag t :: rest)
  | closing {opened t path rest} : Tag.body t = .closing path → TagsMatch opened rest →
      TagsMatch (path :: opened) (.tag t :: rest)

/-- Tags match as they did before white space control. -/
theorem TagsMatch.of_trimPieces {opened : List Path} {trim : Bool} {ps : List Piece}
    (h : TagsMatch opened (trimPieces trim ps)) : TagsMatch opened ps := by
  induction ps generalizing opened trim with
  | nil => exact h
  | cons p ps ih =>
    cases p with
    | raw text =>
      rw [trimPieces_raw, keptRaw] at h
      split at h
      · exact .raw (ih h)
      · cases h with
        | raw h => exact .raw (ih h)
    | tag t =>
      cases h with
      | statement ht h => exact .statement ht (ih h)
      | otherwise ht h => exact .otherwise ht (ih h)
      | opening ht h => exact .opening ht (ih h)
      | closing ht h => exact .closing ht (ih h)

/-- A path that was read from some text. -/
def Path.IsRead (p : Path) : Prop := ∃ c d, Cursor.path c = .ok (p, d)

/-- Paths that were read with one source are one path. -/
theorem Path.IsRead.eq_of_source {p q : Path} (hp : p.IsRead) (hq : q.IsRead)
    (h : p.source = q.source) : p = q := by
  obtain ⟨c, c', hp⟩ := hp
  obtain ⟨d, d', hq⟩ := hq
  have hread := Cursor.path_of_source hp {} []
  rw [h, Cursor.path_of_source hq {} []] at hread
  cases hread
  rfl

/-- Open blocks with the names of their closing tags: a block has the source of its path, and one
that continues another has the name of that. -/
inductive Named : List OpenBlock → Prop
  | nil : Named []
  | opened {block outer} : OpenBlock.chained block = false → block.head.path.IsRead →
      block.name = block.head.path.source → Named outer → Named (block :: outer)
  | chained {block next outer} : OpenBlock.chained block = true →
      block.name = OpenBlock.name next → Named (next :: outer) → Named (block :: next :: outer)

/-- The paths of the tags that opened blocks which are open still. -/
def openedPaths (blocks : List OpenBlock) : List Path :=
  (blocks.filter (!·.chained)).map (·.head.path)

/-- The innermost block ends together with those that it continues, up to the one whose tag opened
it, whose path has the name of them all. -/
theorem Named.exists_opening {block : OpenBlock} {outer : List OpenBlock}
    (h : Named (block :: outer)) (present : Program) :
    ∃ path : Path, path.IsRead ∧ path.source = block.name ∧
      openedPaths (block :: outer) =
        path :: openedPaths (endBlock (block :: outer) present).blocks ∧
      Named (endBlock (block :: outer) present).blocks := by
  generalize hblocks : block :: outer = blocks at h
  induction h generalizing block outer present with
  | nil => cases hblocks
  | opened hchained hread hname houter =>
    cases hblocks
    refine ⟨_, hread, hname.symm, ?_, ?_⟩
    · simp [openedPaths, endBlock, hchained]
    · simpa [endBlock, hchained] using houter
  | @chained block next outer hchained hname houter ih =>
    cases hblocks
    obtain ⟨path, hread, hsource, hpaths, hnamed⟩ := ih [block.close present] rfl
    refine ⟨path, hread, hsource.trans hname.symm, ?_, ?_⟩
    · simpa [openedPaths, endBlock, hchained] using hpaths
    · simpa [endBlock, hchained] using hnamed

namespace Nesting

section
variable {n m : Nesting} {t : Tag} (hn : Named n.blocks)
include hn

theorem named_beginElse {chain : Option BlockHead} (h : n.beginElse t chain = .ok m) :
    Named m.blocks ∧ openedPaths m.blocks = openedPaths n.blocks := by
  obtain ⟨blocks, present⟩ := n
  cases blocks with
  | nil => cases h
  | cons block outer =>
    have hdivided : Named ({ block with first := some present } :: outer) := by
      cases hn with
      | opened hchained hread hname houter => exact .opened hchained hread hname houter
      | chained hchained hname houter => exact .chained hchained hname houter
    have hpaths : openedPaths ({ block with first := some present } :: outer) =
        openedPaths (block :: outer) := by
      cases hc : block.chained <;> simp [openedPaths, hc]
    simp only [beginElse] at h
    split at h
    next => cases h
    next =>
      cases chain with
      | none =>
        cases h
        exact ⟨hdivided, hpaths⟩
      | some head =>
        obtain rfl := eq_of_openBlock h
        exact ⟨.chained rfl rfl hdivided, hpaths⟩

theorem named_closeBlock {path : Path} (hpath : path.IsRead) (h : n.closeBlock t path = .ok m) :
    Named m.blocks ∧ openedPaths n.blocks = path :: openedPaths m.blocks := by
  obtain ⟨blocks, present⟩ := n
  cases blocks with
  | nil => cases h
  | cons block outer =>
    simp only [closeBlock] at h
    split at h
    next hname =>
      cases h
      obtain ⟨first, hread, hsource, hpaths, hnamed⟩ := hn.exists_opening present
      obtain rfl := hread.eq_of_source hpath (hsource.trans hname.symm)
      exact ⟨hnamed, hpaths⟩
    next => cases h

end

/-- The tags of pieces that nest match, by induction on the pieces that are left. -/
theorem tagsMatch_of_run {n m : Nesting} {ps : List Piece} (hn : Named n.blocks)
    (hread : ∀ t, .tag t ∈ ps → t.body.Read) (h : n.run ps = .ok m) (hend : m.blocks = []) :
    TagsMatch (openedPaths n.blocks) ps := by
  induction ps generalizing n with
  | nil =>
    cases h
    rw [hend]
    exact .nil
  | cons p ps ih =>
    rw [run_cons] at h
    obtain ⟨k, hk, h⟩ := exists_of_bind h
    have hstep := step_of_stepKind hk
    have hrest (hk : Named k.blocks) := ih hk (fun t ht => hread t (.tail _ ht)) h
    cases p with
    | raw text =>
      cases hstep
      exact .raw (hrest hn)
    | tag t =>
      have ht := hread t (.head _)
      simp only [step] at hstep
      split at hstep
      next s hs =>
        cases hstep
        exact .statement hs (hrest hn)
      next inverted head hbody =>
        obtain rfl := eq_of_openBlock hstep
        rw [hbody] at ht
        cases ht with
        | opening hhead =>
          obtain ⟨e, hpath⟩ := Cursor.exists_path_of_blockHead hhead
          exact .opening hbody (hrest (.opened rfl ⟨_, e, hpath⟩ rfl hn))
      next chain hbody =>
        obtain ⟨hnamed, hpaths⟩ := named_beginElse hn hstep
        exact .otherwise hbody (hpaths ▸ hrest hnamed)
      next path hbody =>
        rw [hbody] at ht
        cases ht with
        | closing hpath =>
          obtain ⟨hnamed, hpaths⟩ := named_closeBlock hn ⟨_, _, hpath⟩ hstep
          rw [hpaths]
          exact .closing hbody (hrest hnamed)

end Nesting

theorem Tokens.read {text : List Char} {ps : List Piece} (h : Tokens text ps) :
    ∀ t, .tag t ∈ ps → t.body.Read := by
  intro t ht
  induction h with
  | nil => cases ht
  | tag htag _ ih =>
    cases ht with
    | head => exact htag.read
    | tail _ ht => exact ih ht
  | raw _ _ _ ih =>
    cases ht with
    | tail _ ht => exact ih ht

/-- The tags of a text that parses match. -/
theorem tagsMatch_of_parse {source : String} {p : Program} (h : parse source = .ok p) :
    TagsMatch [] (Cursor.start source.toList).pieces.1 := by
  obtain ⟨ps, htokens, -, hrun⟩ := exists_tokens h
  obtain ⟨rfl, -⟩ := htokens.pieces (c := Cursor.start source.toList) rfl
  rw [trimPieces_bare, Nesting.run_bare] at hrun
  refine .of_trimPieces (Nesting.tagsMatch_of_run .nil (fun t ht => ?_) hrun rfl)
  exact htokens.read t.bare (List.mem_map_of_mem (mem_of_mem_trimPieces ht))

/-- The text of a path determines the path:
* Each text of the grammar is read to its end, as the steps that it stands for, before white space,
  a closing brace, a tilde or the end of the input.
* What was read as a path is a text of the grammar, it is the source of the path, and the place
  behind it is reached.
* Paths that were read from any two inputs with one source are one path.
* Where a text parses, every closing tag has the path of the tag that opened its block. -/
theorem path_text_determines_path :
    (∀ steps text, PathText steps text → ∀ (m : Mark) (t : List Char), WordEnd t →
      (Cursor.mk m (text ++ t)).path =
        .ok (⟨steps, String.ofList text⟩, ⟨m.past text, t⟩)) ∧
    (∀ (c d : Cursor) (p : Path), c.path = .ok (p, d) →
      PathText p.steps p.source.toList ∧ c.rest = p.source.toList ++ d.rest ∧
        d.mark = c.mark.past p.source.toList) ∧
    (∀ (c c' d d' : Cursor) (p q : Path), c.path = .ok (p, d) → c'.path = .ok (q, d') →
      p.source = q.source → p = q) ∧
    ∀ source p, parse source = .ok p → TagsMatch [] (Cursor.start source.toList).pieces.1 := by
  refine ⟨fun steps text h m t ht => h.path ht m, fun c d p h => ?_,
    fun c c' d d' p q hp hq hsource => ?_, fun source p h => tagsMatch_of_parse h⟩
  · obtain ⟨text, hrest, hsource, htext⟩ := Cursor.exists_pathText h
    obtain ⟨front, hfront, hmark⟩ := c.tracks_path.leadsTo p d h
    obtain rfl : text = front := List.append_cancel_right (hrest.symm.trans hfront)
    rw [hsource, String.toList_ofList]
    exact ⟨htext, hrest, hmark⟩
  · exact Path.IsRead.eq_of_source ⟨c, d, hp⟩ ⟨c', d', hq⟩ hsource

/-- A path of a parent, a name, a name in brackets and the value present, before a tilde, before
another word and at both ends of a block. -/
theorem path_text_determines_path_block :
    let path : Path := ⟨[.parent, .field "a", .field "b c", .this], "...a.[b c]/this"⟩
    let behind : Mark := ({} : Mark).past "...a.[b c]/this".toList
    let block := "\x7b\x7b#...a.[b c]/this\x7d\x7dy\x7b\x7b/...a.[b c]/this\x7d\x7d"
    PathText path.steps "...a.[b c]/this".toList ∧
      (Cursor.start "...a.[b c]/this~\x7d\x7d".toList).path =
        .ok (path, ⟨behind, "~\x7d\x7d".toList⟩) ∧
      (∃ q, (Cursor.start "...a.[b c]/this x".toList).path = .ok (q, ⟨behind, " x".toList⟩) ∧
        q = path) ∧
      parse block = .ok [.block path {} [.raw "y"] []] ∧
      TagsMatch [] (Cursor.start block.toList).pieces.1 := by
  intro path behind block
  obtain ⟨hread, hback, hsame, hclose⟩ := path_text_determines_path
  have ha : SegmentText (.field "a") ['a'] :=
    .field (.bare (by decide) (List.all_eq_true.mp (by decide))) (by decide)
  have hbc : SegmentText (.field "b c") "[b c]".toList :=
    .field (.bracketed (show ']' ∉ ['b', ' ', 'c'] by decide)) (by decide)
  have htext : PathText [.parent, .field "a", .field "b c", .this] "...a.[b c]/this".toList :=
    .segments (.parents (.succ (.inl rfl) .zero)) ha
      (.cons (.inl rfl) hbc (.cons (.inr rfl) .this .nil))
  have htilde := hread _ _ htext {} "~\x7d\x7d".toList (by rintro _ ⟨⟩; decide)
  have hspace := hread _ _ htext {} " x".toList (by rintro _ ⟨⟩; decide)
  rw [String.ofList_toList, ← String.toList_append] at htilde hspace
  have hblock : parse block = .ok [.block path {} [.raw "y"] []] := by
    have hword := htext.readsWord fun t =>
      numeral?_eq_none (c := '.') (by decide) (by decide) ("..a.[b c]/this".toList ++ t)
    rw [String.ofList_toList] at hword
    have hy : parse "y" = .ok [.raw "y"] := Written.parse_raw (by decide) (by decide)
    have hparses : ParsesTo _ [.block path {} [.raw "y"] []] :=
      (HeadText.ofWords hword .nil).parsesTo_block ⟨"y", [.raw "y"], hy, by decide, by decide⟩
    have htexts : (HeadText.ofWords hword .nil).opening ++ "y" ++
        (HeadText.ofWords hword .nil).closing = block := by
      rw [← String.toList_inj]
      simp [HeadText.opening, HeadText.closing, HeadText.ofWords, block]
    rw [htexts, ParsesTo, if_pos (by decide)] at hparses
    exact hparses
  exact ⟨(hback _ _ _ htilde).1, htilde, ⟨_, hspace, hsame _ _ _ _ _ _ hspace htilde rfl⟩, hblock,
    hclose block _ hblock⟩

end Stencil
