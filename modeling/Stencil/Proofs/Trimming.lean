import Stencil.Proofs.BlockComposition

/-!
White space control. A tilde takes the white space from the end of the text before its tag or from
the start of the text behind it, as these parse by themselves, and changes nothing else: around a
single tag, and at every tag of a block and of its else chain.
-/
namespace Stencil

namespace Nesting

/-- A nesting without blocks and statements is that of no pieces. -/
theorem eq_nil_of_run {ps : List Piece} (hps : ∀ x ∈ ps, x.Flat)
    (h : run {} ps = .ok ⟨[], []⟩) : ps = [] := by
  rcases List.eq_nil_or_concat' ps with rfl | ⟨ps, x, rfl⟩
  · rfl
  · obtain ⟨n, -, -, hlast⟩ := exists_of_run_append hps h
    cases hlast with
    | inside hblocks => exact absurd rfl hblocks
    | outside s hroot => simp [root, rootProgram] at hroot

theorem YieldsAtRoot.append {ps qs : List Piece} {p q : Program} (hp : YieldsAtRoot ps p)
    (hqs : ∀ x ∈ qs, x.Flat) (hq : YieldsAtRoot qs q) : YieldsAtRoot (ps ++ qs) (p ++ q) := by
  rw [YieldsAtRoot] at hp hq ⊢
  rw [run_append, hp, programDepth_append]
  by_cases hdeep : programDepth p ≤ maxBlockDepth
  · rw [if_pos hdeep]
    change run ⟨[], p⟩ qs = _
    rw [run_eq_behind hqs, hq]
    by_cases hdeep' : programDepth q ≤ maxBlockDepth
    · rw [if_pos hdeep', if_pos (by omega)]
      rfl
    · rw [if_neg hdeep', if_neg (by omega)]
      rfl
  · rw [if_neg hdeep, if_neg (by omega)]
    rfl

end Nesting

/-! Between two texts. -/

section
variable {a b : String} {pa pb : Program}

/-- What reads as one statement does so between two texts, and its first and its last tag trim these
as told. -/
theorem ReadsAlone.parsesTo {text : String} {s : Statement} {before after : Bool}
    (h : ReadsAlone before after text.toList s) (hs : Sealed a.toList) (ha : parse a = .ok pa)
    (hb : parse b = .ok pb) :
    ParsesTo (a ++ text ++ b) (trimProgram false before pa ++ s :: trimProgram after false pb) := by
  obtain ⟨ps, hps, hflatP, hrunP⟩ := exists_tokens ha
  obtain ⟨qs, hqs, hflatQ, hrunQ⟩ := exists_tokens hb
  obtain ⟨ws, hws, htags, hyields⟩ := h.pieces
  obtain ⟨t, rest, hfirst, hbefore⟩ := htags.first
  obtain ⟨front, u, hlast, -⟩ := htags.last
  have hbehind : Tokens (text.toList ++ b.toList) (ws ++ qs) := by
    have := hws.append hqs h.closed
    rwa [hlast, joinPieces_append_tag, joinPieces, ← List.singleton_append, ← List.append_assoc,
      ← hlast] at this
  have htokens : Tokens (a ++ text ++ b).toList (ps ++ (ws ++ qs)) := by
    have := hps.append hbehind hs
    rw [hfirst, List.cons_append, joinPieces_tag, ← List.cons_append, ← hfirst] at this
    simpa using this
  have htrim : trimPieces false (ps ++ (ws ++ qs)) =
      trimEdges false before ps ++ (trimPieces false ws ++ trimEdges after false qs) := by
    rw [show trimEdges after false qs = trimPieces after qs from rfl,
      ← htags.trimPieces_append false qs, hfirst, List.cons_append,
      trimPieces_before_tag hps.ne_nil_of_raw_mem, hbefore]
    rfl
  have hstart := Nesting.yields_of_run (flat_trimEdges hflatP false before)
    (Nesting.run_trimEdges hps hflatP hrunP false before)
  have hend := Nesting.yields_of_run (flat_trimEdges hflatQ after false)
    (Nesting.run_trimEdges hqs hflatQ hrunQ after false)
  refine parsesTo_of_yieldsAtRoot htokens ?_
  rw [htrim]
  have hflat := flat_trimPieces hws.flat false
  exact hstart.atRoot.append (List.forall_mem_append.mpr ⟨hflat, flat_trimEdges hflatQ after false⟩)
    (hyields.atRoot.append (flat_trimEdges hflatQ after false) hend.atRoot)

end

/-! Single tags. -/

/-- The tildes of a tag. -/
structure Tildes where
  before : Bool
  after : Bool
  deriving DecidableEq, Repr, Inhabited

/-- No tildes. -/
def Tildes.none : Tildes := ⟨false, false⟩

/-- A tag with its tildes. -/
def Tildes.tag (w : Tildes) (words : String) : String :=
  String.ofList (tagText words.toList w.before w.after)

@[simp] theorem Tildes.toList_tag (w : Tildes) (words : String) :
    (w.tag words).toList = tagText words.toList w.before w.after := String.toList_ofList

/-- A simple tag, an insertion of a partial or a comment. -/
def Statement.Inline : Statement → Prop
  | .tag .. | .insertion .. | .comment _ => True
  | .raw _ | .block .. => False

theorem Statement.Inline.depth {s : Statement} (h : s.Inline) : s.depth = 0 := by
  cases s <;> first | rfl | cases h

theorem tag_empty : ∃ f, (Cursor.mk {} (tagText [] false false)).tag = .error f := by
  obtain ⟨f, hf⟩ := Cursor.path_atTagEnd (c := ⟨⟨2, 1, 0⟩, ['}', '}']⟩) rfl
  have hcall : (Cursor.mk ⟨2, 1, 0⟩ ['}', '}']).call = .error f := by
    change ((Cursor.mk ⟨2, 1, 0⟩ ['}', '}']).expression >>= _) = _
    rw [Cursor.expression, show numeral? ['}', '}'] = none from rfl, hf]
    rfl
  have hbody : (Cursor.mk ⟨2, 1, 0⟩ ['}', '}']).tagBody = .error f := by
    change (((Cursor.mk ⟨2, 1, 0⟩ ['}', '}']).call >>= _) >>= _) = _
    rw [hcall]
    rfl
  refine ⟨f, ?_⟩
  change ((Cursor.mk ⟨2, 1, 0⟩ ['}', '}']).tagBody >>= _) = _
  rw [hbody]
  rfl

theorem IsTag.words_ne_nil {words : List Char} {t : Tag}
    (h : IsTag (tagText words false false) [] t) : words ≠ [] := by
  rintro rfl
  obtain ⟨u, d, hu, -⟩ := h.2 {} []
  obtain ⟨f, hf⟩ := tag_empty
  rw [List.append_nil, List.append_nil, hf] at hu
  cases hu

/-- The first of some pieces that read as one statement without blocks is its tag. -/
theorem body_of_run {t : Tag} {ps : List Piece} (hps : ∀ x ∈ .tag t :: ps, x.Flat) {s : Statement}
    (hs : s.depth = 0) (h : Nesting.run {} (.tag t :: ps) = .ok ⟨[], [s]⟩) :
    t.body = .statement s ∧ ps = [] := by
  have hrest : ∀ x ∈ ps, x.Flat := fun x hx => hps x (.tail _ hx)
  rw [Nesting.run_cons] at h
  obtain ⟨m, hm, hrun⟩ := exists_of_bind h
  have hstep := Nesting.step_of_stepKind hm
  cases hbody : t.body with
  | statement s' =>
    simp only [Nesting.step, hbody] at hstep
    cases hstep
    change Nesting.run ⟨[], [s']⟩ ps = _ at hrun
    rw [Nesting.run_eq_behind hrest] at hrun
    cases hps' : Nesting.run {} ps with
    | error kind =>
      rw [hps'] at hrun
      cases hrun
    | ok n =>
      rw [hps'] at hrun
      obtain ⟨blocks, present⟩ := n
      cases blocks with
      | cons block outer => simp [Except.map, Nesting.behind, blocksBehind] at hrun
      | nil =>
        obtain ⟨rfl, rfl⟩ : s' = s ∧ present = [] := by
          simpa [Except.map, Nesting.behind, blocksBehind, atRoot] using hrun
        exact ⟨rfl, Nesting.eq_nil_of_run hrest hps'⟩
  | opening inverted head =>
    -- the block that the tag opens makes the program too deep
    have hleads := Nesting.leads_of_step (n := {}) trivial (hps _ List.mem_cons_self) hstep
    have hdepth := (Nesting.run_onto hleads.grounded hrest hrun).1
    simp only [Nesting.step, hbody] at hstep
    obtain rfl := Nesting.eq_of_openBlock hstep
    simp [Nesting.depth, heldDepth, programDepth, hs] at hdepth
  | otherwise chain =>
    simp only [Nesting.step, hbody] at hstep
    cases hstep
  | closing path =>
    simp only [Nesting.step, hbody] at hstep
    cases hstep

/-- A tag that parses to one statement by itself is read as that wherever it stands. -/
theorem isTag_of_parse {tag : String} {words : List Char} {s : Statement}
    (htag : tag.toList = tagText words false false) (h : parse tag = .ok [s]) (hs : s.Inline)
    (hhead : words.head? ≠ some '~') (hlast : words.getLast? ≠ some '~') :
    IsTag (tagText words false false) [] ⟨.statement s, 0, {}, false, false⟩ := by
  obtain ⟨ps, hps, hflat, hrun⟩ := exists_tokens h
  rw [htag] at hps
  obtain ⟨text, htext⟩ : ∃ text, text = tagText words false false := ⟨_, rfl⟩
  rw [← htext] at hps ⊢
  cases hps with
  | nil => cases htext
  | raw hne hnot => exact absurd ⟨_, htext.symm⟩ hnot
  | @tag text t rest ps htag hrest =>
    obtain ⟨hbody, hnil⟩ := body_of_run (flat_trimPieces hflat false) hs.depth hrun
    have hrest' : rest = [] := by
      rcases trimPieces_eq_nil hrest.ne_nil_of_raw_mem hnil with rfl | ⟨-, raw, rfl, hblank⟩
      · exact hrest.eq_nil.mp rfl
      · -- white space does not end in the closing braces
        cases hrest with
        | raw hne _ hmore =>
          have hraw := eq_append_of_blank hblank
          rw [hmore.eq_nil.mp rfl, List.append_nil] at hraw
          rw [← hraw] at hblank
          have hend : ['}'] <:+ text ++ rest :=
            htext ▸ ⟨'{' :: '{' :: (words ++ ['}']), by simp [tagText]⟩
          have hbrace : ['}'] <:+ rest := List.suffix_of_suffix_length_le hend
            (List.suffix_append text rest) (List.length_pos_iff.mpr hne)
          exact absurd hblank (not_blank_of_mem (hbrace.subset List.mem_cons_self) (by decide))
    subst hrest'
    rw [List.append_nil] at htext ⊢
    obtain ⟨inner, hinner⟩ := htag.exists_words
    obtain ⟨u, d, -, hbare, -⟩ := htag.2 {} []
    obtain ⟨body, start, stop, before, after⟩ := t
    obtain ⟨rfl, rfl⟩ : start = 0 ∧ stop = {} := by
      simpa [Tag.bare, eq_comm] using And.intro (congrArg Tag.start hbare) (congrArg Tag.stop hbare)
    obtain rfl : body = .statement s := hbody
    obtain rfl : before = false := by
      cases before with
      | false => rfl
      | true => cases words <;> simp_all [tagText]
    obtain rfl : after = false := by
      cases after with
      | false => rfl
      | true =>
        obtain rfl : words = inner ++ ['~'] := by
          have : words ++ ['}', '}'] = (inner ++ ['~']) ++ ['}', '}'] := by
            simpa [tagText] using htext.symm.trans hinner
          exact List.append_cancel_right this
        simp at hlast
    exact htag

theorem readsAlone_tag {words : String} {s : Statement}
    (h : parse (Tildes.none.tag words) = .ok [s]) (hs : s.Inline)
    (hhead : words.toList.head? ≠ some '~')
    (hlast : words.toList.getLast? ≠ some '~') (w : Tildes) :
    ReadsAlone w.before w.after (w.tag words).toList s := by
  have htag := isTag_of_parse (Tildes.toList_tag _ _) h hs hhead hlast
  have hsided := htag.withTildes htag.words_ne_nil hhead hlast w.before w.after
  have htokens := hsided.tokens .nil
  have htags := fromTagToTag_tag ⟨.statement s, 0, {}, w.before, w.after⟩
  rw [List.append_nil] at htokens
  rw [Tildes.toList_tag]
  refine ⟨hsided.closed, _, htokens, htags, fun outer hroom => ?_⟩
  have hdepth : programDepth [s] = 0 := (programDepth_singleton s).trans hs.depth
  rw [hdepth, Nat.add_zero, if_pos hroom]
  rfl

/-! The tags of blocks. -/

theorem PlainTag.withTildes {text words : List Char} {body : TagBody} (h : PlainTag text body)
    (hwords : text = tagText words false false) (hhead : words.head? ≠ some '~')
    (hlast : words.getLast? ≠ some '~') (w : Tildes) :
    IsTag (tagText words w.before w.after) [] ⟨body, 0, {}, w.before, w.after⟩ := by
  subst hwords
  exact IsTag.withTildes h (IsTag.words_ne_nil h) hhead hlast w.before w.after

theorem getLast?_append_ne {u v : List Char} {c : Char} (hu : u.getLast? ≠ some c)
    (hv : v.getLast? ≠ some c) : (u ++ v).getLast? ≠ some c := by
  rw [List.getLast?_append]
  cases hlast : v.getLast? with
  | none => simpa using hu
  | some d => simpa [hlast] using hv

/-- A head of a block that does not end in a tilde. -/
structure OpenHead extends HeadText where
  noTilde : text.toList.getLast? ≠ some '~'

namespace OpenHead

variable (h : OpenHead) (w : Tildes)

/-- The words of the tag that opens a block, perhaps with its inverse section first. -/
def openingWords (inverted : Bool) : String := (if inverted then "^" else "#") ++ h.text

/-- The words of the tag that continues an else chain. -/
def chainWords : String := "else " ++ h.text

/-- The words of the tag that closes a block. -/
def closingWords : String := "/" ++ h.head.path.source

theorem isTag_opening (inverted : Bool) :
    IsTag (w.tag (h.openingWords inverted)).toList []
      ⟨.opening inverted h.head, 0, {}, w.before, w.after⟩ := by
  rw [Tildes.toList_tag]
  cases inverted with
  | false =>
    refine h.plainTag_opening.withTildes ?_ ?_ ?_ w
    · simp [HeadText.opening, openingWords, tagText]
    · simp [openingWords]
    · simpa [openingWords] using getLast?_append_ne (u := ['#']) (by decide) h.noTilde
  | true =>
    refine h.plainTag_inverted.withTildes ?_ ?_ ?_ w
    · simp [HeadText.inverted, openingWords, tagText]
    · simp [openingWords]
    · simpa [openingWords] using getLast?_append_ne (u := ['^']) (by decide) h.noTilde

theorem isTag_chain :
    IsTag (w.tag h.chainWords).toList []
      ⟨.otherwise (some h.head), 0, {}, w.before, w.after⟩ := by
  rw [Tildes.toList_tag]
  refine h.plainTag_chained.withTildes ?_ ?_ ?_ w
  · simp [HeadText.chained, chainWords, tagText]
  · simp [chainWords]
  · simpa [chainWords] using
      getLast?_append_ne (u := ['e', 'l', 's', 'e', ' ']) (by decide) h.noTilde

theorem isTag_closing :
    IsTag (w.tag h.closingWords).toList [] ⟨.closing h.head.path, 0, {}, w.before, w.after⟩ := by
  obtain ⟨d, hd, -⟩ := h.reads
  obtain ⟨e, hpath⟩ := Cursor.exists_path_of_blockHead hd
  rw [Tildes.toList_tag]
  refine h.plainTag_closing.withTildes ?_ ?_ ?_ w
  · simp [HeadText.closing, closingWords, tagText]
  · simp [closingWords]
  · simpa [closingWords] using
      getLast?_append_ne (u := ['/']) (by decide) (Cursor.source_getLast? hpath)

end OpenHead

/-- The words of the tag between the sections of a block. -/
def ElseSign.words : ElseSign → String
  | word => "else"
  | caret => "^"

theorem ElseSign.isTag_words (sign : ElseSign) (w : Tildes) :
    IsTag (w.tag sign.words).toList [] ⟨.otherwise none, 0, {}, w.before, w.after⟩ := by
  rw [Tildes.toList_tag]
  refine sign.plainTag_text.withTildes ?_ ?_ ?_ w <;> cases sign <;> simp [text, words, tagText]

/-- What stands between the first section of a block and its closing tag, with the tildes of every
tag. -/
inductive TildeChain where
  | nil
  | last (w : Tildes) (sign : ElseSign) (inverse : SectionText)
  | link (w : Tildes) (head : OpenHead) (main : SectionText) (rest : TildeChain)

namespace TildeChain

def text : TildeChain → String
  | nil => ""
  | last w sign inverse => w.tag sign.words ++ inverse.text
  | link w head main rest => w.tag head.chainWords ++ main.text ++ rest.text

/-- Whether the tag behind the first section trims its end, when the closing tag has the tildes
`close`. -/
def trimsFirst (close : Tildes) : TildeChain → Bool
  | nil => close.before
  | last w _ _ => w.before
  | link w _ _ _ => w.before

/-- The inverse section that a chain stands for: every section is trimmed by the tags beside it. -/
def program (close : Tildes) : TildeChain → Program
  | nil => []
  | last w _ inverse => trimProgram w.after close.before inverse.program
  | link w head main rest =>
    [.block head.head.path head.head.arguments
      (trimProgram w.after (rest.trimsFirst close) main.program) (rest.program close)]

theorem endsBlock (chain : TildeChain) (h : OpenHead) (close : Tildes) :
    EndsBlock h.head.path.source (chain.trimsFirst close) close.after
      (chain.text ++ close.tag h.closingWords).toList (chain.program close) := by
  have hclose := h.isTag_closing close
  induction chain with
  | nil => simpa [text, program, trimsFirst] using endsBlock_closing hclose
  | last w sign inverse =>
    simpa [text, program, trimsFirst] using
      endsBlock_otherwise (sign.isTag_words w) inverse.readsInside hclose
  | link w head main rest ih =>
    simpa [text, program, trimsFirst, Nesting.blockOf] using
      endsBlock_chained (head.isTag_chain w) main.readsInside ih

end TildeChain

/-- White space control. Let `a` and `b` be any texts that parse, of which the first does not end in
a backslash or a brace. A tag that parses to one simple tag, insertion or comment stands between
them for that statement: a tilde on its left takes the white space from the end of the program of
`a`, one on its right takes it from the start of that of `b`, and without tildes both stay as they
are. So does a block, of any head, with its main or its inverse section first, and with any else
chain; here the tildes of all its tags trim the sections beside them in the same way. -/
theorem parse_trimmed {a b : String} {pa pb : Program} (hs : Sealed a.toList)
    (ha : parse a = .ok pa) (hb : parse b = .ok pb) :
    (∀ (words : String) (s : Statement), parse (Tildes.none.tag words) = .ok [s] → s.Inline →
      words.toList.head? ≠ some '~' → words.toList.getLast? ≠ some '~' → ∀ w : Tildes,
        parse (a ++ w.tag words ++ b) =
          .ok (trimProgram false w.before pa ++ s :: trimProgram w.after false pb)) ∧
    ∀ (h : OpenHead) (x : SectionText) (chain : TildeChain) (opening closing : Tildes)
      (inverted : Bool),
      ParsesTo
        (a ++ (opening.tag (h.openingWords inverted) ++ x.text ++ chain.text ++
          closing.tag h.closingWords) ++ b)
        (trimProgram false opening.before pa ++
          Nesting.blockOf inverted h.head
            (trimProgram opening.after (chain.trimsFirst closing) x.program)
            (chain.program closing) ::
          trimProgram closing.after false pb) := by
  constructor
  · intro words s hparse hinline hhead hlast w
    have hread := (readsAlone_tag hparse hinline hhead hlast w).parsesTo hs ha hb
    rw [ParsesTo, if_pos] at hread
    · exact hread
    · have := programDepth_le_of_parse ha
      have := programDepth_le_of_parse hb
      rw [programDepth_append, programDepth, programDepth_trimProgram, programDepth_trimProgram,
        hinline.depth]
      omega
  · intro h x chain opening closing inverted
    have hblock := readsAlone_block (h.isTag_opening opening inverted) x.readsInside
      (chain.endsBlock h closing)
    refine ReadsAlone.parsesTo ?_ hs ha hb
    simpa using hblock

open Written in
/-- A tag and a block on lines of their own. -/
theorem parse_trimmed_lines :
    let name : Statement := .tag (.path ⟨[.field "name"], "[name]"⟩) {} true
    let block : Statement := .block ⟨[.field "if"], "[if]"⟩ ⟨[.path ⟨[.this], "this"⟩], {}⟩
      [.raw "yes"] []
    parse "a \n \x7b\x7b~[name]~\x7d\x7d \n b" = .ok [.raw "a", name, .raw "b"] ∧
      parse "a \n \x7b\x7b~#[if] this~\x7d\x7d\n yes \n\x7b\x7b~/[if]\x7d\x7d \n b" =
        .ok [.raw "a", block, .raw " \n b"] := by
  intro name block
  have hname : WritablePath ⟨[.field "name"], "[name]"⟩ :=
    writablePath_plain (by decide) (by decide)
  have hif : WritablePath ⟨[.field "if"], "[if]"⟩ := writablePath_plain (by decide) (by decide)
  have hthis : WritablePath ⟨[.this], "this"⟩ := writablePath_plain (by decide) (by decide)
  have hargs : WritableArguments ⟨[.path ⟨[.this], "this"⟩], {}⟩ := writableArguments_single hthis
  have hcall : CallText (.path ⟨[.field "if"], "[if]"⟩) ⟨[.path ⟨[.this], "this"⟩], {}⟩
      "[if] this".toList := by
    have h : CallText (.path ⟨[.field "if"], "[if]"⟩) ⟨[.path ⟨[.this], "this"⟩], {}⟩ _ :=
      .intro Blank.nil (.positional Gap.space .nil) Blank.nil
    simpa [expressionText, pathText, stepsText, stepText, isDatum] using h
  have ha : parse "a \n " = .ok [.raw "a \n "] := parse_raw (by decide) (by decide)
  have hb : parse " \n b" = .ok [.raw " \n b"] := parse_raw (by decide) (by decide)
  have hyes : parse "\n yes \n" = .ok [.raw "\n yes \n"] := parse_raw (by decide) (by decide)
  let x : SectionText := ⟨"\n yes \n", [.raw "\n yes \n"], hyes, by decide, by decide⟩
  let h : OpenHead := { HeadText.ofCall "[if] this" hcall hif hargs with
    noTilde := show "[if] this".toList.getLast? ≠ some '~' by decide }
  have htag : parse (Tildes.none.tag "[name]") = .ok [name] := by
    have htext : ProgramText false [name] _ :=
      .tag (.escaped (.intro .nil .nil .nil)) .nil
    have hw : Writable [name] := ⟨.tag hname writableArguments_nil .nil, by decide⟩
    have := htext.parse hw
    simpa [Tildes.tag, Tildes.none, tagText, expressionText, pathText, stepsText, stepText, isDatum]
      using this
  have hend : trimProgram false true [.raw "a \n "] = [.raw "a"] := rfl
  have hstart : trimProgram true false [.raw " \n b"] = [.raw "b"] := rfl
  have hmain : trimProgram true true [.raw "\n yes \n"] = [.raw "yes"] := rfl
  obtain ⟨htrimmed, hblock⟩ := parse_trimmed ⟨by decide, by decide⟩ ha hb
  constructor
  · have hread := htrimmed "[name]" name htag trivial (by decide) (by decide) ⟨true, true⟩
    rw [hend, hstart] at hread
    simpa [Tildes.tag, tagText] using hread
  · have hread := hblock h x .nil ⟨true, true⟩ ⟨true, false⟩ false
    simp only [TildeChain.trimsFirst, TildeChain.program, hend, hmain, x] at hread
    have hdeep : programDepth [.raw "a", block, .raw " \n b"] ≤ maxBlockDepth := by
      simp [block, programDepth, Statement.depth, maxBlockDepth]
    rw [ParsesTo, if_pos] at hread
    · simpa [Tildes.tag, tagText, TildeChain.text, OpenHead.openingWords, OpenHead.closingWords, h,
        HeadText.ofCall, Nesting.blockOf, block] using hread
    · exact hdeep

end Stencil
