import Stencil.Proofs.NormalForm.Tag
import Stencil.Proofs.Nesting
import Mathlib.Data.List.Chain

/-!
The normal form of programs that were read. White space control leaves no raw text empty, and takes
none away between two others; so in every section no raw text follows another.
-/
namespace Stencil
open Written

/-- No raw text follows another. -/
def Spaced (p : Program) : Prop := p.IsChain fun a b => ¬ (isRaw a ∧ isRaw b)

/-- A program, or a section of its blocks at any depth. -/
inductive SectionOf (p : Program) : Program → Prop
  | self : SectionOf p p
  | main {q path arguments main inverse} : SectionOf p q →
      .block path arguments main inverse ∈ q → SectionOf p main
  | inverse {q path arguments main inverse} : SectionOf p q →
      .block path arguments main inverse ∈ q → SectionOf p inverse

/-- Programs in normal form, by their blocks. -/
inductive NormalProgram : Program → Prop
  | intro {p} : Spaced p → (∀ s ∈ p, Statement.Normal s) →
      (∀ path arguments main inverse, .block path arguments main inverse ∈ p →
        NormalProgram main) →
      (∀ path arguments main inverse, .block path arguments main inverse ∈ p →
        NormalProgram inverse) → NormalProgram p

theorem NormalProgram.spaced {p : Program} (h : NormalProgram p) : Spaced p := by
  cases h; assumption

theorem NormalProgram.normal {p : Program} (h : NormalProgram p) : ∀ s ∈ p, s.Normal := by
  cases h; assumption

theorem NormalProgram.sectionOf {p q : Program} (h : NormalProgram p) (hq : SectionOf p q) :
    NormalProgram q := by
  induction hq with
  | self => exact h
  | main _ hblock ih => cases ih with | intro _ _ hmain _ => exact hmain _ _ _ _ hblock
  | inverse _ hblock ih => cases ih with | intro _ _ _ hinverse => exact hinverse _ _ _ _ hblock

theorem normalProgram_nil : NormalProgram [] :=
  .intro .nil (by simp) (by simp) (by simp)

/-- A statement in normal form, with its sections. -/
structure Statement.Whole (s : Statement) : Prop where
  normal : s.Normal
  sections : ∀ path arguments main inverse, s = .block path arguments main inverse →
    NormalProgram main ∧ NormalProgram inverse

theorem NormalProgram.push {p : Program} (hp : NormalProgram p) {s : Statement} (hs : s.Whole)
    (hraw : isRaw s → ∀ x ∈ p.getLast?, ¬ isRaw x) : NormalProgram (p ++ [s]) := by
  obtain ⟨hspaced, hnormal, hmain, hinverse⟩ := hp
  refine .intro ?_ (fun x hx => ?_) (fun path arguments main inverse hx => ?_)
    fun path arguments main inverse hx => ?_
  · refine List.isChain_append.mpr ⟨hspaced, .singleton s, fun x hx y hy hboth => ?_⟩
    obtain rfl : s = y := by simpa using hy
    exact hraw hboth.2 x hx hboth.1
  · rcases List.mem_append.mp hx with hx | hx
    · exact hnormal x hx
    · obtain rfl : x = s := by simpa using hx
      exact hs.normal
  · rcases List.mem_append.mp hx with hx | hx
    · exact hmain _ _ _ _ hx
    · exact (hs.sections path arguments main inverse (by simpa [eq_comm] using hx)).1
  · rcases List.mem_append.mp hx with hx | hx
    · exact hinverse _ _ _ _ hx
    · exact (hs.sections path arguments main inverse (by simpa [eq_comm] using hx)).2

/-! Pieces. -/

def Piece.isRaw : Piece → Bool
  | .raw _ => true
  | .tag _ => false

/-- A piece that a program in normal form can be made of. -/
def Piece.Normal : Piece → Prop
  | .raw text => text ≠ []
  | .tag t => t.body.Flat ∧ t.body.Normal

/-- Pieces of which no raw text follows another. -/
def SpacedPieces (ps : List Piece) : Prop := ps.IsChain fun a b => ¬ (a.isRaw ∧ b.isRaw)

theorem Tokens.normal {text : List Char} {ps : List Piece} (h : Tokens text ps) :
    ∀ p ∈ ps, p.Normal := by
  induction h with
  | nil => simp
  | tag htag _ ih => exact List.forall_mem_cons.mpr ⟨⟨htag.read.flat, htag.read.normal⟩, ih⟩
  | raw hne hb _ ih => exact List.forall_mem_cons.mpr ⟨rawText_ne_nil hne hb, ih⟩

/-- A raw text goes on up to a tag or to the end. -/
theorem Tokens.not_isRaw_head {text : List Char} {ps : List Piece}
    (h : Tokens (rawText text).2 ps) : ∀ p ∈ ps.head?, p.isRaw = false := by
  rcases (rawText_stops text).2 with hnil | htag
  · rw [h.eq_nil.mpr hnil]
    simp
  · generalize (rawText text).2 = rest at h htag
    cases h with
    | nil => simp
    | tag => simp [Piece.isRaw]
    | raw _ hnot => exact absurd htag hnot

theorem Tokens.spaced {text : List Char} {ps : List Piece} (h : Tokens text ps) :
    SpacedPieces ps := by
  induction h with
  | nil => exact .nil
  | tag _ _ ih => exact .cons ih (by simp [Piece.isRaw])
  | raw _ _ hrest ih => exact .cons ih fun p hp => by simp [hrest.not_isRaw_head p hp]

theorem not_isRaw_head_trimPieces {ps : List Piece} (h : ∀ p ∈ ps.head?, p.isRaw = false)
    (trim : Bool) : ∀ p ∈ (trimPieces trim ps).head?, p.isRaw = false := by
  cases ps with
  | nil => simp [trimPieces]
  | cons p ps =>
    cases p with
    | raw text => simp [Piece.isRaw] at h
    | tag t => simp [trimPieces, Piece.isRaw]

/-- White space control makes no raw texts adjacent: what it leaves out stood between two tags. -/
theorem SpacedPieces.trimPieces {ps : List Piece} (h : SpacedPieces ps) (trim : Bool) :
    SpacedPieces (trimPieces trim ps) := by
  induction ps generalizing trim with
  | nil => exact .nil
  | cons p ps ih =>
    obtain ⟨hhead, hps⟩ := List.isChain_cons.mp h
    cases p with
    | raw text =>
      have hrest := @not_isRaw_head_trimPieces ps
        (fun p hp => by simpa [Piece.isRaw] using hhead p hp) false
      rw [trimPieces_raw, keptRaw]
      split
      · exact ih hps false
      · exact .cons (ih hps false) fun p hp => by simp [hrest p hp]
    | tag t => exact .cons (ih hps _) (by simp [Piece.isRaw])

theorem normal_trimPieces {ps : List Piece} (h : ∀ p ∈ ps, p.Normal) (trim : Bool) :
    ∀ p ∈ trimPieces trim ps, p.Normal := by
  induction ps generalizing trim with
  | nil => simp [trimPieces]
  | cons p ps ih =>
    obtain ⟨hp, hps⟩ := List.forall_mem_cons.mp h
    cases p with
    | raw text =>
      rw [trimPieces_raw, keptRaw]
      split
      · exact ih hps false
      next hne => exact List.forall_mem_cons.mpr ⟨by simpa [Piece.Normal] using hne, ih hps false⟩
    | tag t => exact List.forall_mem_cons.mpr ⟨hp, ih hps _⟩

/-! Nesting. -/

/-- An open block with what was read of it. -/
structure OpenBlock.Normal (block : OpenBlock) : Prop where
  head : block.head.Normal
  before : NormalProgram block.before
  first : ∀ p ∈ block.first, NormalProgram p

structure Nesting.Normal (n : Nesting) : Prop where
  blocks : ∀ block ∈ n.blocks, block.Normal
  present : NormalProgram n.present

theorem OpenBlock.Normal.close {block : OpenBlock} (h : block.Normal) {present : Program}
    (hp : NormalProgram present) : (block.close present).Whole ∧ ¬ isRaw (block.close present) := by
  obtain ⟨⟨hpath, harguments⟩, -, hfirst⟩ := h
  have hone : NormalProgram (block.first.getD present) := by
    cases hb : block.first with
    | none => exact hp
    | some p => exact hfirst p hb
  have htwo : NormalProgram (if block.first.isSome then present else []) := by
    split
    · exact hp
    · exact normalProgram_nil
  rw [OpenBlock.close]
  split
  · refine ⟨⟨⟨hpath, harguments⟩, fun _ _ _ _ hs => ?_⟩, by simp [isRaw]⟩
    cases hs
    exact ⟨htwo, hone⟩
  · refine ⟨⟨⟨hpath, harguments⟩, fun _ _ _ _ hs => ?_⟩, by simp [isRaw]⟩
    cases hs
    exact ⟨hone, htwo⟩

/-- Ending blocks leaves a statement last that is no raw text. -/
theorem normal_endBlock {blocks : List OpenBlock} (hb : ∀ block ∈ blocks, block.Normal)
    {present : Program} (hp : NormalProgram present)
    (hlast : blocks = [] → ∀ s ∈ present.getLast?, ¬ isRaw s) :
    (endBlock blocks present).Normal ∧
      ∀ s ∈ (endBlock blocks present).present.getLast?, ¬ isRaw s := by
  induction blocks generalizing present with
  | nil => exact ⟨⟨by simp [endBlock], hp⟩, hlast rfl⟩
  | cons block outer ih =>
    obtain ⟨hblock, houter⟩ := List.forall_mem_cons.mp hb
    obtain ⟨hwhole, hraw⟩ := hblock.close hp
    have hnot : isRaw (block.close present) → ∀ x ∈ block.before.getLast?, ¬ isRaw x :=
      fun h => absurd h hraw
    rw [endBlock]
    split
    · refine ih houter ?_ fun _ => by simpa using hraw
      exact normalProgram_nil.push hwhole (by simp)
    · exact ⟨⟨houter, hblock.before.push hwhole hnot⟩, by simpa using hraw⟩

namespace Nesting

theorem Normal.openBlock {n m : Nesting} (hn : n.Normal) {block : OpenBlock} (hb : block.Normal)
    {stop : Mark} (h : n.openBlock block stop = .ok m) :
    m.Normal ∧ ∀ s ∈ m.present.getLast?, ¬ isRaw s := by
  obtain rfl := eq_of_openBlock h
  exact ⟨⟨List.forall_mem_cons.mpr ⟨hb, hn.blocks⟩, normalProgram_nil⟩, by simp⟩

theorem Normal.beginElse {n m : Nesting} (hn : n.Normal) {t : Tag} {chain : Option BlockHead}
    (hchain : ∀ head ∈ chain, head.Normal) (h : n.beginElse t chain = .ok m) :
    m.Normal ∧ ∀ s ∈ m.present.getLast?, ¬ isRaw s := by
  obtain ⟨blocks, present⟩ := n
  cases blocks with
  | nil => cases h
  | cons block outer =>
    obtain ⟨hblock, houter⟩ := List.forall_mem_cons.mp hn.blocks
    have hdivided : (Nesting.mk ({ block with first := some present } :: outer) []).Normal := by
      refine ⟨List.forall_mem_cons.mpr ⟨⟨hblock.head, hblock.before, ?_⟩, houter⟩,
        normalProgram_nil⟩
      rintro p ⟨⟩
      exact hn.present
    simp only [Nesting.beginElse] at h
    split at h
    next => cases h
    next =>
      cases chain with
      | none => cases h; exact ⟨hdivided, by simp⟩
      | some head =>
        exact hdivided.openBlock ⟨hchain head rfl, normalProgram_nil, by simp⟩ h

theorem Normal.closeBlock {n m : Nesting} (hn : n.Normal) {t : Tag} {path : Path}
    (h : n.closeBlock t path = .ok m) : m.Normal ∧ ∀ s ∈ m.present.getLast?, ¬ isRaw s := by
  obtain ⟨blocks, present⟩ := n
  cases blocks with
  | nil => cases h
  | cons block outer =>
    simp only [Nesting.closeBlock] at h
    split at h
    next => cases h; exact normal_endBlock hn.blocks hn.present (by simp)
    next => cases h

/-- One more piece; only a raw text leaves a raw text last. -/
theorem Normal.step {n m : Nesting} (hn : n.Normal) {p : Piece} (hp : p.Normal)
    (hraw : p.isRaw → ∀ s ∈ n.present.getLast?, ¬ isRaw s) (h : n.step p = .ok m) :
    m.Normal ∧ (p.isRaw = false → ∀ s ∈ m.present.getLast?, ¬ isRaw s) := by
  cases p with
  | raw text =>
    cases h
    have hwhole : (Statement.raw (String.ofList text)).Whole :=
      ⟨fun hnil => hp (String.ofList_eq_empty_iff.mp hnil), by simp⟩
    exact ⟨⟨hn.blocks, hn.present.push hwhole fun _ => hraw rfl⟩, by simp [Piece.isRaw]⟩
  | tag t =>
    obtain ⟨hflat, hbody⟩ := hp
    simp only [Nesting.step] at h
    split at h
    next s ht =>
      cases h
      rw [ht] at hflat hbody
      obtain ⟨hnotRaw, hdepth⟩ := hflat
      have hwhole : s.Whole := ⟨hbody, by rintro _ _ _ _ rfl; simp [Statement.depth] at hdepth⟩
      exact ⟨⟨hn.blocks, hn.present.push hwhole (by simp [hnotRaw])⟩,
        fun _ => by simp [push, hnotRaw]⟩
    next inverted head ht =>
      rw [ht] at hbody
      have hblock : OpenBlock.Normal ⟨head, head.path.source, inverted, false, n.present, none⟩ :=
        ⟨hbody, hn.present, by simp⟩
      obtain ⟨hm, hlast⟩ := hn.openBlock hblock h
      exact ⟨hm, fun _ => hlast⟩
    next chain ht =>
      rw [ht] at hbody
      obtain ⟨hm, hlast⟩ := hn.beginElse hbody h
      exact ⟨hm, fun _ => hlast⟩
    next path ht =>
      obtain ⟨hm, hlast⟩ := hn.closeBlock h
      exact ⟨hm, fun _ => hlast⟩

theorem Normal.run {n m : Nesting} (hn : n.Normal) {ps : List Piece} (hps : ∀ p ∈ ps, p.Normal)
    (hspaced : SpacedPieces ps)
    (hfirst : ∀ p ∈ ps.head?, p.isRaw → ∀ s ∈ n.present.getLast?, ¬ isRaw s)
    (h : n.run ps = .ok m) : m.Normal := by
  induction ps generalizing n with
  | nil => cases h; exact hn
  | cons p ps ih =>
    obtain ⟨hp, hrest⟩ := List.forall_mem_cons.mp hps
    obtain ⟨hhead, hspaced⟩ := List.isChain_cons.mp hspaced
    rw [run_cons] at h
    obtain ⟨k, hk, h⟩ := exists_of_bind h
    obtain ⟨hnormal, hlast⟩ := hn.step hp (hfirst p rfl) (step_of_stepKind hk)
    refine ih hnormal hrest hspaced (fun q hq hqraw => hlast ?_) h
    simpa [hqraw] using hhead q hq

end Nesting

/-- The normal form of the program of a text: in the program and in every section of its blocks no
raw text is empty or follows another, also where white space control took something away; paths,
strings, numerals and named parameters are as they are read; and blocks nest no deeper than they
may, a block that an else chains to another standing in the inverse section of that. -/
theorem parse_normal {source : String} {p : Program} (h : parse source = .ok p) :
    (∀ q, SectionOf p q → Spaced q ∧ ∀ s ∈ q, s.Normal) ∧ programDepth p ≤ maxBlockDepth := by
  obtain ⟨ps, htokens, -, hrun⟩ := exists_tokens h
  have hstart : Nesting.Normal {} := ⟨by simp, normalProgram_nil⟩
  have hend : Nesting.Normal ⟨[], p⟩ :=
    hstart.run (normal_trimPieces htokens.normal false) (htokens.spaced.trimPieces false)
      (by simp) hrun
  refine ⟨fun q hq => ?_, programDepth_le_of_parse h⟩
  have hnormal := hend.present.sectionOf hq
  exact ⟨hnormal.spaced, hnormal.normal⟩

/-- A text between two comments that nothing is left of. -/
theorem parse_normal_trimmed :
    let p : Program := [.raw "a", .comment "", .comment "k", .raw " b"]
    parse "a \x7b\x7b~!~\x7d\x7d \x7b\x7b!k\x7d\x7d b" = .ok p ∧ Spaced p ∧ (∀ s ∈ p, s.Normal) ∧
      programDepth p ≤ maxBlockDepth := by
  intro p
  have htrimming : IsTag (tagText ['!'] true true) []
      ⟨.statement (.comment ""), 0, {}, true, true⟩ :=
    ⟨by decide, fun _ _ => ⟨_, _, rfl, rfl, Cursor.rest_reach ⟨['~', '}', '}'], rfl⟩⟩⟩
  have hplain : IsTag (tagText ['!', 'k'] false false) []
      ⟨.statement (.comment "k"), 0, {}, false, false⟩ :=
    ⟨by decide, fun _ _ => ⟨_, _, rfl, rfl, Cursor.rest_reach ⟨['k', '}', '}'], rfl⟩⟩⟩
  have hlast : Tokens [' ', 'b'] [.raw [' ', 'b']] := .raw (by simp) (by decide) .nil
  have hmiddle : Tokens (' ' :: (tagText ['!', 'k'] false false ++ [' ', 'b'])) (.raw [' '] :: _) :=
    .raw (by simp) (by decide) (.tag (hplain.append _) hlast)
  have htokens : Tokens "a \x7b\x7b~!~\x7d\x7d \x7b\x7b!k\x7d\x7d b".toList
      (.raw ['a', ' '] :: _) := .raw (by simp) (by decide) (.tag (htrimming.append _) hmiddle)
  have hp : parse "a \x7b\x7b~!~\x7d\x7d \x7b\x7b!k\x7d\x7d b" = .ok p :=
    (parse_of_tokens htokens).1 p rfl
  obtain ⟨hsections, hdepth⟩ := parse_normal hp
  obtain ⟨hspaced, hnormal⟩ := hsections p .self
  exact ⟨hp, hspaced, hnormal, hdepth⟩

end Stencil
