import Stencil.Proofs.Written.Raw
import Stencil.Proofs.Written.Tag

/-!
Programs read back. The text of a program gives pieces that, put on top of any open blocks, add the
program to the present section and leave the blocks as they are.
-/
namespace Stencil

namespace Cursor

theorem pieces_nil (m : Mark) : (Cursor.mk m []).pieces = ([], .ok m) := by
  rw [pieces]
  simp

theorem pieces_tag {m : Mark} {text : List Char} {t : Tag} {d : Cursor}
    (hb : ['{', '{'] <+: text) (ht : (Cursor.mk m text).tag = .ok (t, d)) :
    (Cursor.mk m text).pieces = (.tag t :: d.pieces.1, d.pieces.2) := by
  have hne : text ≠ [] := by
    rintro rfl
    simp at hb
  have hfollows : (Cursor.mk m text).follows ['{', '{'] = true :=
    List.isPrefixOf_iff_prefix.mpr hb
  rw [pieces]
  simp only [hne, hfollows, dif_neg, dif_pos, not_false_eq_true]
  split
  next h => simp [ht] at h
  next h =>
    obtain ⟨rfl, rfl⟩ : t = _ ∧ d = _ := by simpa [ht] using h
    rfl

theorem pieces_error {m : Mark} {text : List Char} {f : Fault} (hb : ['{', '{'] <+: text)
    (hf : (Cursor.mk m text).tag = .error f) : (Cursor.mk m text).pieces = ([], .error f) := by
  have hne : text ≠ [] := by
    rintro rfl
    simp at hb
  have hfollows : (Cursor.mk m text).follows ['{', '{'] = true :=
    List.isPrefixOf_iff_prefix.mpr hb
  rw [pieces]
  simp only [hne, hfollows, dif_neg, dif_pos, not_false_eq_true]
  split
  next h => cases hf.symm.trans h; rfl
  next h => cases hf.symm.trans h

theorem pieces_raw {m : Mark} {text raw tail : List Char} (hne : text ≠ [])
    (hb : ¬ ['{', '{'] <+: text ++ tail) (hr : rawText (text ++ tail) = (raw, tail)) :
    (Cursor.mk m (text ++ tail)).pieces =
      (.raw raw :: (Cursor.mk (m.past text) tail).pieces.1,
        (Cursor.mk (m.past text) tail).pieces.2) := by
  have hne' : text ++ tail ≠ [] := by simp [hne]
  have hfollows : (Cursor.mk m (text ++ tail)).follows ['{', '{'] = false := by
    rw [Bool.eq_false_iff]
    exact fun h => hb (List.isPrefixOf_iff_prefix.mp h)
  rw [pieces]
  simp only [hne', hfollows, dif_neg, not_false_eq_true, Bool.false_eq_true, hr, reach_append]

end Cursor

/-- A piece that white space control leaves as it is, with its neighbours. -/
def Piece.Plain : Piece → Prop
  | .raw text => text ≠ []
  | .tag t => t.trimBefore = false ∧ t.trimAfter = false

theorem trimPieces_plain {pieces : List Piece} (h : ∀ p ∈ pieces, p.Plain) :
    trimPieces false pieces = pieces := by
  induction pieces with
  | nil => rfl
  | cons p rest ih =>
    have hrest := ih fun x hx => h x (.tail _ hx)
    have hbefore : trimsBefore rest = false := by
      cases rest with
      | nil => rfl
      | cons q rest =>
        cases q with
        | raw text => rfl
        | tag t => exact (h (.tag t) (by simp)).1
    cases p with
    | raw text =>
      have hne : text ≠ [] := h (.raw text) (by simp)
      simp [trimPieces, hbefore, hne, hrest]
    | tag t =>
      have hplain := h (.tag t) (by simp)
      rw [trimPieces, hplain.2, hrest]

namespace Written

/-- Reading a text with a tail: its pieces come before those of the tail, white space control leaves
them as they are, and they take one nesting to another. -/
def Moves (text tail : List Char) (n n' : Nesting) : Prop :=
  ∀ m : Mark, ∃ pieces : List Piece,
    (Cursor.mk m (text ++ tail)).pieces =
      (pieces ++ (Cursor.mk (m.past text) tail).pieces.1,
        (Cursor.mk (m.past text) tail).pieces.2) ∧
    (∀ x ∈ pieces, x.Plain) ∧ pieces.foldlM Nesting.step n = .ok n'

theorem Moves.nil (tail : List Char) (n : Nesting) : Moves [] tail n n := by
  intro m
  exact ⟨[], by simp, by simp, rfl⟩

theorem Moves.trans {first second tail : List Char} {n n' n'' : Nesting}
    (h : Moves first (second ++ tail) n n') (h' : Moves second tail n' n'') :
    Moves (first ++ second) tail n n'' := by
  intro m
  obtain ⟨pieces, hpieces, hplain, hfold⟩ := h m
  obtain ⟨more, hmore, hplain', hfold'⟩ := h' (m.past first)
  refine ⟨pieces ++ more, ?_, ?_, ?_⟩
  · rw [List.append_assoc, hpieces, hmore]
    simp
  · intro x hx
    rcases List.mem_append.mp hx with hx | hx
    · exact hplain x hx
    · exact hplain' x hx
  · rw [List.foldlM_append, hfold]
    exact hfold'

theorem Moves.of_tag {text : List Char} {body : TagBody} (h : ReadAs text body)
    (hb : ['{', '{'] <+: text) {n n' : Nesting}
    (hstep : ∀ start stop, n.step (.tag ⟨body, start, stop, false, false⟩) = .ok n')
    (tail : List Char) : Moves text tail n n' := by
  intro m
  refine ⟨[.tag ⟨body, m.offset, m.past text, false, false⟩], ?_, ?_, ?_⟩
  · exact Cursor.pieces_tag (hb.trans (List.prefix_append _ _)) (h m tail)
  · simp [Piece.Plain]
  · rw [List.foldlM_cons, hstep]
    rfl

/-- Reading the text of a program adds it to the present section, whatever blocks are open. -/
def Reads (p : Program) (text tail : List Char) : Prop :=
  ∀ n : Nesting, n.blocks.length + programDepth p ≤ maxBlockDepth →
    Moves text tail n { n with present := n.present ++ p }

theorem Reads.nil (tail : List Char) : Reads [] [] tail := by
  intro n _
  simpa using Moves.nil tail n

/-- One statement and the program after it. -/
theorem Reads.cons {s : Statement} {rest : Program} {text more tail : List Char}
    (h : Reads [s] text (more ++ tail)) (hr : Reads rest more tail) :
    Reads (s :: rest) (text ++ more) tail := by
  intro n hn
  simp only [programDepth] at hn
  have hfirst := h n (by simp only [programDepth]; omega)
  have hrest := hr { n with present := n.present ++ [s] } (by simp only; omega)
  simpa using hfirst.trans hrest

theorem reads_tag {s : Statement} {text : List Char} (h : ReadAs text (.statement s))
    (hb : ['{', '{'] <+: text) (tail : List Char) : Reads [s] text tail := by
  intro n _
  exact Moves.of_tag h hb (fun _ _ => rfl) tail

theorem reads_raw {beforeTag : Bool} {raw : String} {tail : List Char}
    (h : WritableRaw beforeTag raw.toList) (ht : RawTail beforeTag tail) :
    Reads [.raw raw] (rawWritten beforeTag raw.toList) tail := by
  intro n _ m
  refine ⟨[.raw raw.toList], ?_, ?_, ?_⟩
  · exact Cursor.pieces_raw (rawWritten_ne_nil h.nonempty beforeTag)
      (not_braces_written h.nonempty h.paired ht) (rawText_written h.noBackslash h.paired ht)
  · simpa [Piece.Plain] using h.nonempty
  · simp [Nesting.step, Nesting.push]

/-! Blocks, which nest as the stack of open blocks does. -/

/-- A nesting inside one more block, whose first section is `first` once its else has come. -/
def inside (n : Nesting) (path : Path) (arguments : Arguments) (first : Option Program)
    (present : Program) : Nesting :=
  ⟨⟨⟨path, arguments⟩, path.source, false, false, n.present, first⟩ :: n.blocks, present⟩

theorem step_opening {n : Nesting} (h : n.blocks.length < maxBlockDepth) (path : Path)
    (arguments : Arguments) (start : Nat) (stop : Mark) :
    n.step (.tag ⟨.opening false ⟨path, arguments⟩, start, stop, false, false⟩) =
      .ok (inside n path arguments none []) := by
  simp [Nesting.step, Nesting.openBlock, Nat.not_le.mpr h, inside]

theorem step_otherwise (n : Nesting) (path : Path) (arguments : Arguments) (main : Program)
    (start : Nat) (stop : Mark) :
    (inside n path arguments none main).step (.tag ⟨.otherwise none, start, stop, false, false⟩) =
      .ok (inside n path arguments main []) := by
  simp [Nesting.step, Nesting.beginElse, inside]

theorem step_closing (n : Nesting) (path : Path) (arguments : Arguments) (first : Option Program)
    (present : Program) (start : Nat) (stop : Mark) :
    (inside n path arguments first present).step
        (.tag ⟨.closing path, start, stop, false, false⟩) =
      .ok { n with present := n.present ++ [.block path arguments (first.getD present)
        (if first.isSome then present else [])] } := by
  simp [Nesting.step, Nesting.closeBlock, endBlock, OpenBlock.close, inside]

/-- The section of a block, read inside it. -/
theorem Reads.section {p : Program} {text tail : List Char} (h : Reads p text tail) {n : Nesting}
    (hn : n.blocks.length + 1 + programDepth p ≤ maxBlockDepth) (path : Path)
    (arguments : Arguments) (first : Option Program) :
    Moves text tail (inside n path arguments first []) (inside n path arguments first p) :=
  h (inside n path arguments first []) hn

theorem BlockText.braces {path : Path} {arguments : Arguments} {body : TagBody} {text : List Char}
    (h : BlockText path arguments body text) : ['{', '{'] <+: text := by
  cases h <;> simp

theorem TagText.braces {s : Statement} {text : List Char} (h : TagText s text) :
    ['{', '{'] <+: text := by
  cases h <;> simp

section Block
variable {path : Path} {arguments : Arguments} {main inverse : Program}
  {opening first middle second closing tail : List Char}

theorem reads_block (ho : BlockText path arguments (.opening false ⟨path, arguments⟩) opening)
    (hc : BlockText path arguments (.closing path) closing) (hpath : WritablePath path)
    (hargs : WritableArguments arguments) (hmain : Reads main first (closing ++ tail)) :
    Reads [.block path arguments main []] (opening ++ first ++ closing) tail := by
  intro n hn
  simp only [programDepth, Statement.depth] at hn
  have hopen := Moves.of_tag (ho.readAs hpath hargs) ho.braces
    (step_opening (n := n) (by omega) path arguments) (first ++ (closing ++ tail))
  have hfirst := hmain.section (n := n) (by omega) path arguments none
  have hclose := Moves.of_tag (hc.readAs hpath hargs) hc.braces
    (step_closing n path arguments none main) tail
  exact (hopen.trans hfirst).trans hclose

theorem reads_divided (ho : BlockText path arguments (.opening false ⟨path, arguments⟩) opening)
    (he : BlockText path arguments (.otherwise none) middle)
    (hc : BlockText path arguments (.closing path) closing) (hpath : WritablePath path)
    (hargs : WritableArguments arguments)
    (hmain : Reads main first (middle ++ (second ++ (closing ++ tail))))
    (hinverse : Reads inverse second (closing ++ tail)) :
    Reads [.block path arguments main inverse] (opening ++ first ++ middle ++ second ++ closing)
      tail := by
  intro n hn
  simp only [programDepth, Statement.depth] at hn
  have hopen := Moves.of_tag (ho.readAs hpath hargs) ho.braces
    (step_opening (n := n) (by omega) path arguments)
    (first ++ (middle ++ (second ++ (closing ++ tail))))
  have hfirst := hmain.section (n := n) (by omega) path arguments none
  have helse := Moves.of_tag (he.readAs hpath hargs) he.braces
    (step_otherwise n path arguments main) (second ++ (closing ++ tail))
  have hsecond := hinverse.section (n := n) (by omega) path arguments main
  have hclose := Moves.of_tag (hc.readAs hpath hargs) hc.braces
    (step_closing n path arguments main inverse) tail
  exact (((hopen.trans hfirst).trans helse).trans hsecond).trans hclose

end Block

/-- The text of a program that does not start with a raw text starts with braces. -/
theorem ProgramText.braces {beforeTag : Bool} {s : Statement} {rest : Program} {text : List Char}
    (h : ProgramText beforeTag (s :: rest) text) (hs : isRaw s = false) : ['{', '{'] <+: text := by
  cases h with
  | raw => simp [isRaw] at hs
  | tag ht => exact ht.braces.trans (List.prefix_append _ _)
  | block ho =>
    simp only [List.append_assoc]
    exact ho.braces.trans (List.prefix_append _ _)
  | divided ho =>
    simp only [List.append_assoc]
    exact ho.braces.trans (List.prefix_append _ _)

/-- What follows a raw text at the start of a program. -/
theorem ProgramText.rawTail {beforeTag : Bool} {rest : Program} {text tail : List Char}
    (h : ProgramText beforeTag rest text) (hs : ∀ s ∈ rest.head?, isRaw s = false)
    (ht : RawTail beforeTag tail) : RawTail (beforeTag || !rest.isEmpty) (text ++ tail) := by
  cases rest with
  | nil =>
    cases h
    simpa using ht
  | cons s rest =>
    have hb := h.braces (hs s rfl)
    simpa [RawTail] using hb.trans (List.prefix_append _ _)

/-- Every text of a program that has one reads as the program. -/
theorem ProgramText.reads {beforeTag : Bool} {p : Program} {text : List Char}
    (h : ProgramText beforeTag p text) (hw : WritableProgram beforeTag p) {tail : List Char}
    (ht : RawTail beforeTag tail) : Reads p text tail := by
  induction h generalizing tail with
  | nil => exact Reads.nil tail
  | raw hrest ih =>
    cases hw with
    | raw hraw hnext hw =>
      exact (reads_raw hraw (hrest.rawTail hnext ht)).cons (ih hw ht)
  | tag hs hrest ih =>
    cases hw with
    | raw => cases hs
    | block => cases hs
    | comment hbody hw =>
      cases hs
      exact (reads_tag (readAs_comment hbody) (by simp) _).cons (ih hw ht)
    | tag hhead hargs hw =>
      have hb := hs.braces
      refine Reads.cons (reads_tag ?_ hb _) (ih hw ht)
      cases hs with
      | escaped hcall => exact readAs_escaped hcall hhead hargs
      | ampersand hcall => exact readAs_ampersand hcall hhead hargs
      | braced hcall hgap => exact readAs_braced hcall hgap hhead hargs
    | insertion hname hcontext hnamed hw =>
      have hb := hs.braces
      refine Reads.cons (reads_tag ?_ hb _) (ih hw ht)
      cases hs with
      | insertion hbefore hparams hafter =>
        exact readAs_insertion hbefore hparams hafter hname hcontext hnamed
  | @block _ path arguments main rest opening first closing more ho hmain hc hrest ihmain ihrest =>
    cases hw with
    | block hpath hargs hwmain hwinverse hw =>
      have hsection := ihmain hwmain (RawTail.of_braces hc.braces (more ++ tail))
      exact (reads_block ho hc hpath hargs hsection).cons (ihrest hw ht)
  | @divided _ path arguments main inverse rest opening first middle second closing more ho hmain he
      hinverse hc hrest ihmain ihinverse ihrest =>
    cases hw with
    | block hpath hargs hwmain hwinverse hw =>
      have hfirst := ihmain hwmain
        (RawTail.of_braces he.braces (second ++ (closing ++ (more ++ tail))))
      have hsecond := ihinverse hwinverse (RawTail.of_braces hc.braces (more ++ tail))
      exact (reads_divided ho he hc hpath hargs hfirst hsecond).cons (ihrest hw ht)

/-! Every writable program has a text, with a space in each gap. -/

theorem exists_paramsText (positional : List Expression) (named : List (String × Expression)) :
    ∃ text, ParamsText positional named text := by
  have hgap : Gap [' '] := .space
  induction positional with
  | nil =>
    induction named with
    | nil => exact ⟨_, .nil⟩
    | cons entry rest ih =>
      obtain ⟨text, htext⟩ := ih
      exact ⟨_, .named hgap Blank.nil Blank.nil htext⟩
  | cons e rest ih =>
    obtain ⟨text, htext⟩ := ih
    exact ⟨_, .positional hgap htext⟩

theorem exists_callText (head : Expression) (arguments : Arguments) :
    ∃ text, CallText head arguments text := by
  obtain ⟨params, hparams⟩ := exists_paramsText arguments.positional arguments.named.entries
  exact ⟨_, .intro Blank.nil hparams Blank.nil⟩

theorem WritableProgram.exists_programText {beforeTag : Bool} {p : Program}
    (h : WritableProgram beforeTag p) : ∃ text, ProgramText beforeTag p text := by
  induction h with
  | nil => exact ⟨_, .nil⟩
  | raw hraw hnext hrest ih =>
    obtain ⟨text, htext⟩ := ih
    exact ⟨_, .raw htext⟩
  | comment hbody hrest ih =>
    obtain ⟨text, htext⟩ := ih
    exact ⟨_, .tag (.comment _) htext⟩
  | @tag _ head arguments escaped rest hhead hargs hrest ih =>
    obtain ⟨text, htext⟩ := ih
    obtain ⟨call, hcall⟩ := exists_callText head arguments
    cases escaped with
    | true => exact ⟨_, .tag (.escaped hcall) htext⟩
    | false => exact ⟨_, .tag (.ampersand hcall) htext⟩
  | @insertion _ name context named rest hname hcontext hnamed hrest ih =>
    obtain ⟨text, htext⟩ := ih
    obtain ⟨params, hparams⟩ := exists_paramsText context.toList named.entries
    exact ⟨_, .tag (.insertion Blank.nil hparams Blank.nil) htext⟩
  | @block _ path arguments main inverse rest hpath hargs hmain hinverse hrest ihmain ihinverse
      ih =>
    obtain ⟨first, hfirst⟩ := ihmain
    obtain ⟨second, hsecond⟩ := ihinverse
    obtain ⟨text, htext⟩ := ih
    obtain ⟨call, hcall⟩ := exists_callText (.path path) arguments
    exact ⟨_, .divided (.opening hcall) hfirst (.otherwise Blank.nil Blank.nil)
      hsecond (.closing Blank.nil Blank.nil) htext⟩

theorem ProgramText.parse {p : Program} {text : List Char} (h : ProgramText false p text)
    (hw : Writable p) : parse (String.ofList text) = .ok p := by
  obtain ⟨pieces, hpieces, hplain, hfold⟩ :=
    h.reads hw.form (show RawTail false [] from rfl) {} (by simpa using hw.depth) {}
  rw [List.append_nil, Cursor.pieces_nil, List.append_nil] at hpieces
  have hread : readProgram text = .ok p := by
    simp only [readProgram, Cursor.start, hpieces, trimPieces_plain hplain, nest, hfold, bind,
      Except.bind]
    rfl
  rw [Stencil.parse, String.toList_ofList, hread]
  rfl

theorem parse_empty : parse "" = .ok [] := ProgramText.nil.parse ⟨.nil, by decide⟩

/-- A text without braces stands for itself. -/
theorem parse_raw {text : String} (hne : text ≠ "") (hplain : '{' ∉ text.toList) :
    parse text = .ok [.raw text] := by
  have hraw : WritableRaw false text.toList :=
    ⟨by simpa using hne, fun h => hplain (h.subset (by simp)), nofun⟩
  have hw : Writable [.raw text] :=
    ⟨.raw hraw (by simp) .nil, by simp [programDepth, Statement.depth]⟩
  have htext : ProgramText false [.raw text] _ := .raw .nil
  simpa [rawWritten, escapeBraces_eq_self hplain] using htext.parse hw

/-- No tag ends where its text does. -/
theorem parse_open : ∃ e, parse "\x7b\x7b" = .error e := by
  obtain ⟨f, hf⟩ : ∃ f, (Cursor.start ['{', '{']).tag = .error f := ⟨_, rfl⟩
  have hread : readProgram ['{', '{'] = .error f := by
    rw [readProgram, Cursor.start, Cursor.pieces_error (List.prefix_refl _) hf]
    rfl
  exact ⟨_, congrArg (·.mapError (Fault.error ['{', '{'])) hread⟩

/-- A path of one step that is no parent and no private datum. -/
theorem writablePath_plain {s : PathStep} (hs : isPlain s) (hname : ']' ∉ (stepName s).toList) :
    WritablePath ⟨[s], String.ofList (stepText s)⟩ where
  nonempty := by simp
  inOrder := ⟨0, none, [s], rfl, by simpa using hs⟩
  names := by simpa using hname
  source := by
    cases s with
    | datum name => cases hs
    | this | parent | field name => rfl

theorem writableNamed_nil : WritableNamed [] := ⟨by simp, by simp, by simp⟩

theorem writableArguments_nil : WritableArguments {} := ⟨by simp, writableNamed_nil⟩

theorem writableArguments_single {e : Expression} (h : WritableExpression e) :
    WritableArguments ⟨[e], {}⟩ :=
  ⟨by simpa using h, writableNamed_nil⟩

end Written

open Written

/-- The round trip of the grammar: a writable program has a text, and each of its texts, however
its white space is chosen, parses to the program. -/
theorem parse_written {p : Program} (h : Writable p) :
    (∃ text, ProgramText false p text) ∧
      ∀ text, ProgramText false p text → parse (String.ofList text) = .ok p :=
  ⟨h.form.exists_programText, fun _ htext => htext.parse h⟩

/-- A backslash before a block with a private datum of the parent and a named parameter in its head,
and with a comment inside. -/
def nestedProgram : Program :=
  [.raw "\\",
    .block ⟨[.field "if"], "[if]"⟩
      ⟨[.path ⟨[.parent, .datum "k"], "@../[k]"⟩], ⟨[("n", .numeral ⟨.int 1, true, "true"⟩)]⟩⟩
      [.comment "-"] []]

theorem parse_written_nested :
    Writable nestedProgram ∧
      parse
        "\\\\\x7b\x7b#[if] @../[k]\nn= true\x7d\x7d\x7b\x7b!-----\x7d\x7d\x7b\x7b/[if] \x7d\x7d" =
        .ok nestedProgram := by
  have hif : WritablePath ⟨[.field "if"], "[if]"⟩ :=
    ⟨by simp, ⟨0, none, [.field "if"], rfl, by decide⟩, by decide, by decide⟩
  have hk : WritablePath ⟨[.parent, .datum "k"], "@../[k]"⟩ :=
    ⟨by simp, ⟨1, some "k", [], rfl, by decide⟩, by decide, by decide⟩
  have hargs : WritableArguments ⟨[.path ⟨[.parent, .datum "k"], "@../[k]"⟩],
      ⟨[("n", .numeral ⟨.int 1, true, "true"⟩)]⟩⟩ :=
    ⟨by simpa [WritableExpression] using hk, by simp, by simp [isNameChar, isSpace, nameStops],
      by simp [WritableExpression, WritableNumeral]⟩
  have hcomment : WritableComment "-".toList := ⟨by decide, by decide⟩
  have hw : Writable nestedProgram := by
    refine ⟨.raw ⟨by decide, by decide, fun _ => by simp [Paired]⟩ (by simp [isRaw]) ?_, by decide⟩
    exact .block hif hargs (.comment hcomment .nil) .nil .nil
  have hspace : Blank [' '] := by simp [Blank, isSpace]
  have hline : Blank ['\n'] := by simp [Blank, isSpace]
  have htext : ProgramText false nestedProgram _ :=
    .raw (.block
      (.opening (.intro .nil
        (.positional ⟨by simp, hspace⟩ (.named ⟨by simp, hline⟩ .nil hspace .nil)) .nil))
      (.tag (.comment "-") .nil) (.closing .nil hspace) .nil)
  exact ⟨hw, (parse_written hw).2 _ htext⟩

end Stencil
