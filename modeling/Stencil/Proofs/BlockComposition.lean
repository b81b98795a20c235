import Stencil.Proofs.BlockTags
import Stencil.Proofs.Trimming.Edges

/-!
Blocks put together from texts. Sections that parse by themselves parse to the same programs inside
a block, whatever its head, and an else chain parses as the blocks nested in one another that it
stands for.
-/
namespace Stencil

/-- A section of a block: a text that parses by itself, and whose end takes no part in the tag
behind it. -/
structure SectionText where
  text : String
  program : Program
  parses : parse text = .ok program
  closed : Sealed text.toList

/-- What stands between the first section of a block and its closing tag: nothing, a last section,
or a further block with its first section. -/
inductive Chain where
  | nil
  | last (sign : ElseSign) (inverse : SectionText)
  | link (head : HeadText) (main : SectionText) (rest : Chain)

namespace Chain

/-- A chain as it is written. -/
def text : Chain → String
  | nil => ""
  | last sign inverse => sign.text ++ inverse.text
  | link head main rest => head.chained ++ main.text ++ rest.text

/-- A chain with every link written as a block of its own inside a plain else section. -/
def nested : Chain → String
  | nil => ""
  | last sign inverse => sign.text ++ inverse.text
  | link head main rest =>
    ElseSign.word.text ++ (head.opening ++ main.text ++ rest.nested ++ head.closing)

/-- The inverse section that a chain stands for. -/
def program : Chain → Program
  | nil => []
  | last _ inverse => inverse.program
  | link head main rest =>
    [.block head.head.path head.head.arguments main.program rest.program]

end Chain

/-! Texts as pieces. -/

theorem Sealed.append {a b : List Char} (ha : Sealed a) (hb : Sealed b) : Sealed (a ++ b) := by
  cases b with
  | nil => rwa [List.append_nil]
  | cons c b =>
    have hlast : (a ++ c :: b).getLast? = (c :: b).getLast? :=
      List.getLast?_append_of_ne_nil a (by simp)
    exact ⟨hlast ▸ hb.noBackslash, hlast ▸ hb.noBrace⟩

/-- A text that reads as a program inside any open blocks, and trimmed on its sides as the program
without the white space there. -/
structure ReadsInside (text : List Char) (p : Program) : Prop where
  closed : Sealed text
  pieces : ∃ ps, Tokens text ps ∧
    ∀ atStart atEnd, Nesting.Yields (trimEdges atStart atEnd ps) (trimProgram atStart atEnd p)

/-- Pieces from a tag to a tag, of which the first trims the text before them and the last the text
behind them as told. -/
structure FromTagToTag (before after : Bool) (ps : List Piece) : Prop where
  first : ∃ t rest, ps = .tag t :: rest ∧ t.trimBefore = before
  last : ∃ front t, ps = front ++ [.tag t] ∧ t.trimAfter = after

/-- A text from the tag that ends the first section of a block of a name up to the end of the block,
with the program of the second section. -/
structure EndsBlock (name : String) (before after : Bool) (text : List Char)
    (second : Program) : Prop where
  closed : Sealed text
  pieces : ∃ ps, Tokens text ps ∧ FromTagToTag before after ps ∧
    Nesting.Closes name (trimPieces false ps) second

/-- A text from a tag to a tag that reads as one statement inside any open blocks. -/
structure ReadsAlone (before after : Bool) (text : List Char) (s : Statement) : Prop where
  closed : Sealed text
  pieces : ∃ ps, Tokens text ps ∧ FromTagToTag before after ps ∧
    Nesting.Yields (trimPieces false ps) [s]

theorem SectionText.readsInside (x : SectionText) : ReadsInside x.text.toList x.program := by
  obtain ⟨ps, hps, hflat, hrun⟩ := exists_tokens x.parses
  refine ⟨x.closed, ps, hps, fun atStart atEnd => ?_⟩
  exact Nesting.yields_of_run (flat_trimEdges hflat atStart atEnd)
    (Nesting.run_trimEdges hps hflat hrun atStart atEnd)

theorem fromTagToTag_tag (t : Tag) : FromTagToTag t.trimBefore t.trimAfter [.tag t] :=
  ⟨⟨t, [], rfl, rfl⟩, ⟨[], t, rfl, rfl⟩⟩

section
variable {before after : Bool} {ps : List Piece} (h : FromTagToTag before after ps)
include h

theorem FromTagToTag.cons (t : Tag) (front : List Piece) :
    FromTagToTag t.trimBefore after (.tag t :: (front ++ ps)) := by
  obtain ⟨behind, u, rfl, hu⟩ := h.last
  exact ⟨⟨t, _, rfl, rfl⟩, ⟨.tag t :: (front ++ behind), u, by simp, hu⟩⟩

theorem FromTagToTag.trimPieces_append (trim : Bool) (qs : List Piece) :
    trimPieces trim (ps ++ qs) = trimPieces false ps ++ trimPieces after qs := by
  obtain ⟨front, u, hlast, rfl⟩ := h.last
  obtain ⟨t, rest, hfirst, -⟩ := h.first
  have hstart : trimPieces trim (ps ++ qs) = trimPieces false (ps ++ qs) := by
    rw [hfirst]
    rfl
  rw [hstart, hlast, List.append_assoc, List.singleton_append, trimPieces_behind_tag]

theorem FromTagToTag.trimEdges (atStart atEnd : Bool) :
    trimEdges atStart atEnd ps = trimPieces false ps := by
  have hstart : trimPieces atStart ps = trimPieces false ps := by
    obtain ⟨t, rest, rfl, -⟩ := h.first
    rfl
  obtain ⟨front, u, rfl, -⟩ := h.last
  obtain ⟨kept, hkept⟩ := exists_trimPieces_tag front u false
  rw [Stencil.trimEdges, hstart, hkept, trimLast_tag]
  exact ite_self _

end

section
variable {text x rest : List Char} {t : Tag} {p q : Program} {path : Path} {name : String}
  {head : BlockHead} {before after : Bool}

theorem IsTag.tokens (h : IsTag text [] t) {ps : List Piece} (hr : Tokens rest ps) :
    Tokens (text ++ rest) (.tag t :: ps) := .tag (h.append rest) hr

/-- A tag, a section and what starts with another tag: the section is trimmed by the two tags. -/
theorem IsTag.section_tokens (h : IsTag text [] t) (hx : ReadsInside x p) {rs : List Piece}
    (hr : Tokens rest rs) (hrs : FromTagToTag before after rs) :
    ∃ ps es, Tokens (text ++ (x ++ rest)) (.tag t :: ps) ∧
      FromTagToTag t.trimBefore after (.tag t :: ps) ∧
      Nesting.Yields es (trimProgram t.trimAfter before p) ∧
      trimPieces false (.tag t :: ps) = .tag t :: (es ++ trimPieces false rs) := by
  obtain ⟨ps, hps, hyields⟩ := hx.pieces
  obtain ⟨u, us, rfl, hu⟩ := hrs.first
  have hjoin := hps.append hr hx.closed
  rw [joinPieces_tag] at hjoin
  refine ⟨ps ++ .tag u :: us, _, h.tokens hjoin, hrs.cons t ps, hyields _ _, ?_⟩
  rw [trimPieces, trimPieces_before_tag hps.ne_nil_of_raw_mem, hu]
  rfl

theorem endsBlock_closing (h : IsTag text [] ⟨.closing path, 0, {}, before, after⟩) :
    EndsBlock path.source before after text [] := by
  have htokens := h.tokens .nil
  rw [List.append_nil] at htokens
  have htags := fromTagToTag_tag ⟨.closing path, 0, {}, before, after⟩
  exact ⟨h.closed, _, htokens, htags, Nesting.closes_closing rfl⟩

theorem endsBlock_otherwise {first last : Bool}
    (h : IsTag text [] ⟨.otherwise none, 0, {}, before, first⟩) (hx : ReadsInside x q)
    (hclose : IsTag rest [] ⟨.closing path, 0, {}, last, after⟩) :
    EndsBlock path.source before after (text ++ (x ++ rest)) (trimProgram first last q) := by
  have hrest := hclose.tokens .nil
  rw [List.append_nil] at hrest
  have hclosing := fromTagToTag_tag ⟨.closing path, 0, {}, last, after⟩
  obtain ⟨ps, es, htokens, htags, hyields, htrim⟩ := h.section_tokens hx hrest hclosing
  refine ⟨h.closed.append (hx.closed.append hclose.closed), _, htokens, htags, ?_⟩
  rw [htrim]
  exact Nesting.closes_otherwise rfl hyields rfl

theorem endsBlock_chained {first last : Bool}
    (h : IsTag text [] ⟨.otherwise (some head), 0, {}, before, first⟩) (hx : ReadsInside x p)
    (hrest : EndsBlock name last after rest q) :
    EndsBlock name before after (text ++ (x ++ rest))
      [Nesting.blockOf false head (trimProgram first last p) q] := by
  obtain ⟨rs, hrs, hends, hcloses⟩ := hrest.pieces
  obtain ⟨ps, es, htokens, htags, hyields, htrim⟩ := h.section_tokens hx hrs hends
  refine ⟨h.closed.append (hx.closed.append hrest.closed), _, htokens, htags, ?_⟩
  rw [htrim]
  exact Nesting.closes_chained rfl hyields hcloses

theorem readsAlone_block {inverted first last : Bool}
    (h : IsTag text [] ⟨.opening inverted head, 0, {}, before, first⟩) (hx : ReadsInside x p)
    (hrest : EndsBlock head.path.source last after rest q) :
    ReadsAlone before after (text ++ (x ++ rest))
      (Nesting.blockOf inverted head (trimProgram first last p) q) := by
  obtain ⟨rs, hrs, hends, hcloses⟩ := hrest.pieces
  obtain ⟨ps, es, htokens, htags, hyields, htrim⟩ := h.section_tokens hx hrs hends
  refine ⟨h.closed.append (hx.closed.append hrest.closed), _, htokens, htags, ?_⟩
  rw [htrim]
  exact Nesting.yields_block rfl hyields hcloses

theorem ReadsAlone.readsInside {s : Statement} (h : ReadsAlone before after text s)
    (hs : ¬ Written.isRaw s) : ReadsInside text [s] := by
  obtain ⟨ps, hps, htags, hyields⟩ := h.pieces
  refine ⟨h.closed, ps, hps, fun atStart atEnd => ?_⟩
  rwa [htags.trimEdges, trimProgram_singleton hs]

theorem not_isRaw_blockOf (inverted : Bool) (head : BlockHead) (first second : Program) :
    ¬ Written.isRaw (Nesting.blockOf inverted head first second) := by
  cases inverted <;> simp [Nesting.blockOf, Written.isRaw]

/-- A whole block as a section of another. -/
theorem readsInside_block {inverted first last : Bool}
    (h : IsTag text [] ⟨.opening inverted head, 0, {}, before, first⟩) (hx : ReadsInside x p)
    (hrest : EndsBlock head.path.source last after rest q) :
    ReadsInside (text ++ (x ++ rest))
      [Nesting.blockOf inverted head (trimProgram first last p) q] :=
  (readsAlone_block h hx hrest).readsInside (not_isRaw_blockOf _ _ _ _)

end

theorem ReadsInside.parsesTo {source : String} {p : Program} (h : ReadsInside source.toList p) :
    ParsesTo source p := by
  obtain ⟨ps, hps, hyields⟩ := h.pieces
  exact parsesTo_of_yieldsAtRoot hps (hyields false false).atRoot

/-! Chains. -/

namespace Chain

theorem endsBlock_text (chain : Chain) {close : List Char} {path : Path}
    (h : PlainTag close (.closing path)) :
    EndsBlock path.source false false (chain.text.toList ++ close) chain.program := by
  induction chain with
  | nil => exact endsBlock_closing h
  | last sign inverse =>
    simpa [text, program] using endsBlock_otherwise sign.plainTag_text inverse.readsInside h
  | link head main rest ih =>
    simpa [text, program, Nesting.blockOf] using
      endsBlock_chained head.plainTag_chained main.readsInside ih

theorem endsBlock_nested (chain : Chain) {close : List Char} {path : Path}
    (h : PlainTag close (.closing path)) :
    EndsBlock path.source false false (chain.nested.toList ++ close) chain.program := by
  induction chain generalizing close path with
  | nil => exact endsBlock_closing h
  | last sign inverse =>
    simpa [nested, program] using endsBlock_otherwise sign.plainTag_text inverse.readsInside h
  | link head main rest ih =>
    -- the rest of the chain ends the block of the link, which is the section of a plain else
    have hblock := readsInside_block head.plainTag_opening main.readsInside
      (ih head.plainTag_closing)
    simpa [nested, program, Nesting.blockOf] using
      endsBlock_otherwise ElseSign.word.plainTag_text hblock h

end Chain

/-- The block of a head with its sections. -/
def HeadText.block (h : HeadText) (main inverse : Program) : Statement :=
  .block h.head.path h.head.arguments main inverse

/-- Blocks parse section by section. Whatever texts parse by themselves, and whatever head there is,
the block with these sections parses to these programs, unless the blocks nest too deep: with no
second section, with one after either sign, with the two in inverted order, and with an else chain
of any length, which is the same program as its links nested in one another. -/
theorem parse_block (h : HeadText) (x : SectionText) :
    ParsesTo (h.opening ++ x.text ++ h.closing) [h.block x.program []] ∧
    (∀ (sign : ElseSign) (y : SectionText),
      ParsesTo (h.opening ++ x.text ++ sign.text ++ y.text ++ h.closing)
        [h.block x.program y.program]) ∧
    (∀ y : SectionText,
      ParsesTo (h.inverted ++ x.text ++ ElseSign.word.text ++ y.text ++ h.closing)
        [h.block y.program x.program]) ∧
    ∀ chain : Chain,
      ParsesTo (h.opening ++ x.text ++ chain.text ++ h.closing)
        [h.block x.program chain.program] ∧
      ParsesTo (h.opening ++ x.text ++ chain.nested ++ h.closing)
        [h.block x.program chain.program] := by
  have hchain (chain : Chain) : ParsesTo (h.opening ++ x.text ++ chain.text ++ h.closing)
      [h.block x.program chain.program] := by
    have := readsInside_block h.plainTag_opening x.readsInside
      (chain.endsBlock_text h.plainTag_closing)
    exact ReadsInside.parsesTo (by simpa [HeadText.block, Nesting.blockOf] using this)
  refine ⟨?_, fun sign y => ?_, fun y => ?_, fun chain => ⟨hchain chain, ?_⟩⟩
  · simpa [Chain.text, Chain.program] using hchain .nil
  · simpa [Chain.text, Chain.program, String.append_assoc] using hchain (.last sign y)
  · have := readsInside_block h.plainTag_inverted x.readsInside
      (endsBlock_otherwise ElseSign.word.plainTag_text y.readsInside h.plainTag_closing)
    exact ReadsInside.parsesTo (by simpa [HeadText.block, Nesting.blockOf] using this)
  · have := readsInside_block h.plainTag_opening x.readsInside
      (chain.endsBlock_nested h.plainTag_closing)
    exact ReadsInside.parsesTo (by simpa [HeadText.block, Nesting.blockOf] using this)

open Written in
theorem parse_block_ifElse :
    parse "\x7b\x7b#[if] this\x7d\x7dyes\x7b\x7belse\x7d\x7dno\x7b\x7b/[if]\x7d\x7d" =
      .ok [.block ⟨[.field "if"], "[if]"⟩ ⟨[.path ⟨[.this], "this"⟩], {}⟩
        [.raw "yes"] [.raw "no"]] := by
  have hif : WritablePath ⟨[.field "if"], "[if]"⟩ :=
    writablePath_plain (by decide) (by decide)
  have hthis : WritablePath ⟨[.this], "this"⟩ :=
    writablePath_plain (by decide) (by decide)
  have hargs : WritableArguments ⟨[.path ⟨[.this], "this"⟩], {}⟩ :=
    writableArguments_single hthis
  have hgap : Gap [' '] := ⟨by simp, by simp [Blank, isSpace]⟩
  have hcall : CallText (.path ⟨[.field "if"], "[if]"⟩) ⟨[.path ⟨[.this], "this"⟩], {}⟩
      "[if] this".toList := by
    have h : CallText (.path ⟨[.field "if"], "[if]"⟩) ⟨[.path ⟨[.this], "this"⟩], {}⟩ _ :=
      .intro Blank.nil (.positional hgap .nil) Blank.nil
    simpa [expressionText, pathText, stepsText, stepText, isDatum] using h
  have hyes : Writable [.raw "yes"] :=
    ⟨.raw ⟨by decide, by decide, by simp⟩ (by simp) .nil, by decide⟩
  have hno : Writable [.raw "no"] :=
    ⟨.raw ⟨by decide, by decide, by simp⟩ (by simp) .nil, by decide⟩
  let x : SectionText := ⟨"yes", [.raw "yes"], by
    simpa [rawWritten, escapeBraces] using (ProgramText.raw .nil).parse hyes, by decide, by decide⟩
  let y : SectionText := ⟨"no", [.raw "no"], by
    simpa [rawWritten, escapeBraces] using (ProgramText.raw .nil).parse hno, by decide, by decide⟩
  have hparse := (parse_block (.ofCall "[if] this" hcall hif hargs) x).2.1 .word y
  rw [ParsesTo, if_pos] at hparse
  · exact hparse
  · simp [HeadText.block, x, y, programDepth, Statement.depth, maxBlockDepth]

end Stencil
