import Stencil.Proofs.Pieces

/-!
How pieces nest inside blocks that are already open. Pieces that nest to a program on their own do
so on top of any open blocks, as long as all blocks together nest no deeper than they may; what
stood in a section before does not matter to them.
-/
namespace Stencil

section
variable {ε ε' α : Type} {x : Except ε α} {f : ε → ε'}

theorem mapError_eq_ok {a : α} : x.mapError f = .ok a ↔ x = .ok a := by
  cases x <;> simp [Except.mapError]

theorem mapError_eq_error {e : ε'} : x.mapError f = .error e ↔ ∃ e', x = .error e' ∧ f e' = e := by
  cases x <;> simp [Except.mapError]

end

theorem programDepth_append (p q : Program) :
    programDepth (p ++ q) = max (programDepth p) (programDepth q) := by
  induction p with
  | nil => simp [programDepth]
  | cons s p ih => simp only [List.cons_append, programDepth, ih, Nat.max_assoc]

theorem programDepth_singleton (s : Statement) : programDepth [s] = s.depth := by
  simp [programDepth]

/-- A piece that is no block by itself. -/
def Piece.Flat : Piece → Prop
  | .raw _ => True
  | .tag t => t.body.Flat

/-- What a list of open blocks is closed to: a chained block, which has nothing before it, stands in
the one around it. -/
def Grounded : List OpenBlock → Prop
  | [] => True
  | block :: outer => (block.chained → block.before = [] ∧ outer ≠ []) ∧ Grounded outer

/-- How deep the statements nest that open blocks hold already. -/
def heldDepth : List OpenBlock → Nat
  | [] => 0
  | block :: outer =>
    max (heldDepth outer) (outer.length +
      max (programDepth block.before) (programDepth (block.first.getD []) + 1))

theorem OpenBlock.depth_close (block : OpenBlock) (present : Program) :
    (block.close present).depth =
      max (programDepth (block.first.getD [])) (programDepth present) + 1 := by
  obtain ⟨head, name, inverted, chained, before, first⟩ := block
  cases first <;> cases inverted <;>
    simp [OpenBlock.close, Statement.depth, programDepth, Nat.max_comm]

namespace Nesting

/-- How deep blocks nest, those that are open and those in their sections. -/
def depth (n : Nesting) : Nat :=
  max (heldDepth n.blocks) (n.blocks.length + programDepth n.present)

/-- The nesting inside further open blocks. -/
def onto (n : Nesting) (outer : List OpenBlock) : Nesting := ⟨n.blocks ++ outer, n.present⟩

theorem length_le_depth (n : Nesting) : n.blocks.length ≤ n.depth := by
  rw [depth]
  omega

end Nesting

section EndBlock
variable {blocks : List OpenBlock} (hne : blocks ≠ []) (hg : Grounded blocks) (present : Program)
include hne hg

theorem endBlock_onto (outer : List OpenBlock) :
    endBlock (blocks ++ outer) present = (endBlock blocks present).onto outer := by
  induction blocks generalizing present with
  | nil => exact absurd rfl hne
  | cons block rest ih =>
    rw [List.cons_append, endBlock, endBlock]
    split
    next hchained => exact ih (hg.1 hchained).2 hg.2 _
    next => rfl

theorem grounded_endBlock : Grounded (endBlock blocks present).blocks := by
  induction blocks generalizing present with
  | nil => exact absurd rfl hne
  | cons block rest ih =>
    rw [endBlock]
    split
    next hchained => exact ih (hg.1 hchained).2 hg.2 _
    next => exact hg.2

theorem depth_endBlock : (endBlock blocks present).depth = Nesting.depth ⟨blocks, present⟩ := by
  induction blocks generalizing present with
  | nil => exact absurd rfl hne
  | cons block rest ih =>
    rw [endBlock]
    split
    next hchained =>
      obtain ⟨hbefore, hrest⟩ := hg.1 hchained
      rw [ih hrest hg.2]
      simp only [Nesting.depth, heldDepth, hbefore, block.depth_close, programDepth,
        List.length_cons]
      omega
    next =>
      simp only [Nesting.depth, heldDepth, programDepth_append, programDepth_singleton,
        block.depth_close, List.length_cons]
      omega

omit hg in
theorem length_endBlock_lt : (endBlock blocks present).blocks.length < blocks.length := by
  induction blocks generalizing present with
  | nil => exact absurd rfl hne
  | cons block rest ih =>
    rw [endBlock]
    split
    next =>
      cases rest with
      | nil => simp [endBlock]
      | cons next rest => exact Nat.lt_succ_of_lt (ih (by simp) _)
    next => exact Nat.lt_succ_self _

end EndBlock

namespace Nesting

/-- One more piece, whose fault, if it has one, is told without its place. -/
def stepKind (n : Nesting) (p : Piece) : Except ParseFailure Nesting :=
  (n.step p).mapError Fault.kind

theorem step_of_stepKind {n m : Nesting} {p : Piece} (h : n.stepKind p = .ok m) :
    n.step p = .ok m :=
  mapError_eq_ok.mp h

/-- The pieces one after the other. -/
def run (n : Nesting) (ps : List Piece) : Except ParseFailure Nesting := ps.foldlM stepKind n

/-- The failure of blocks that nest deeper than they may. -/
def tooDeep : Except ParseFailure Nesting := .error (.nestingTooDeep maxBlockDepth)

@[simp] theorem run_nil (n : Nesting) : n.run [] = .ok n := rfl

theorem run_cons (n : Nesting) (p : Piece) (ps : List Piece) :
    n.run (p :: ps) = n.stepKind p >>= fun m => m.run ps := List.foldlM_cons ..

theorem run_append (n : Nesting) (ps qs : List Piece) :
    n.run (ps ++ qs) = n.run ps >>= fun m => m.run qs := List.foldlM_append

/-- A nesting that one more piece leads to, how deep it is, and what the piece leads to on top of
further open blocks. -/
structure Leads (n m : Nesting) (p : Piece) : Prop where
  grounded : Grounded m.blocks
  depth : m.depth = max n.depth m.blocks.length
  onto (outer : List OpenBlock) : n.blocks.length + outer.length ≤ maxBlockDepth →
    (n.onto outer).stepKind p =
      if m.blocks.length + outer.length ≤ maxBlockDepth then .ok (m.onto outer) else tooDeep

theorem leads_push {n : Nesting} (hg : Grounded n.blocks) {p : Piece} {s : Statement}
    (hs : s.depth = 0) (hp : ∀ k : Nesting, k.step p = .ok (k.push s)) : Leads n (n.push s) p where
  grounded := hg
  depth := by
    simp only [push, Nesting.depth, programDepth_append, programDepth_singleton, hs]
    omega
  onto outer hroom := by
    rw [stepKind, hp]
    exact (if_pos hroom).symm

/-- One more open block. -/
theorem mapError_openBlock (n : Nesting) (block : OpenBlock) (stop : Mark) :
    (n.openBlock block stop).mapError Fault.kind =
      if n.blocks.length + 1 ≤ maxBlockDepth then .ok ⟨block :: n.blocks, []⟩ else tooDeep := by
  rw [openBlock]
  by_cases h : n.blocks.length + 1 ≤ maxBlockDepth
  · rw [if_pos h, if_neg (Nat.not_le.mpr h)]
    rfl
  · rw [if_neg h, if_pos (Nat.le_of_lt_succ (Nat.not_le.mp h))]
    rfl

theorem openBlock_onto {n : Nesting} (outer : List OpenBlock) (block : OpenBlock) (stop : Mark) :
    ((n.onto outer).openBlock block stop).mapError Fault.kind =
      if n.blocks.length + 1 + outer.length ≤ maxBlockDepth then
        .ok ((⟨block :: n.blocks, []⟩ : Nesting).onto outer)
      else tooDeep := by
  have hlength : (n.onto outer).blocks.length + 1 = n.blocks.length + 1 + outer.length := by
    rw [onto, List.length_append, Nat.add_right_comm]
  rw [mapError_openBlock, hlength]
  rfl

theorem eq_of_openBlock {n m : Nesting} {block : OpenBlock} {stop : Mark}
    (h : n.openBlock block stop = .ok m) : m = ⟨block :: n.blocks, []⟩ := by
  rw [openBlock] at h
  split at h
  · cases h
  · cases h
    rfl

theorem leads_beginElse {n m : Nesting} (hg : Grounded n.blocks) {t : Tag}
    {chain : Option BlockHead} (ht : t.body = .otherwise chain) (h : n.beginElse t chain = .ok m) :
    Leads n m (.tag t) := by
  obtain ⟨blocks, present⟩ := n
  have hstep (k : Nesting) : k.stepKind (.tag t) = (k.beginElse t chain).mapError Fault.kind := by
    simp only [stepKind, step, ht]
  cases blocks with
  | nil => cases h
  | cons block rest =>
    obtain ⟨head, name, inverted, chained, before, first⟩ := block
    cases first with
    | some first => cases h
    | none =>
      cases chain with
      | none =>
        cases h
        refine ⟨hg, ?_, fun outer hroom => by rw [hstep]; exact (if_pos hroom).symm⟩
        simp only [Nesting.depth, heldDepth, programDepth, List.length_cons, Option.getD_none,
          Option.getD_some]
        omega
      | some link =>
        obtain rfl := eq_of_openBlock h
        refine ⟨⟨by simp, hg⟩, ?_, fun outer _ => ?_⟩
        · simp only [Nesting.depth, heldDepth, programDepth, List.length_cons, Option.getD_none,
            Option.getD_some]
          omega
        · rw [hstep]
          exact openBlock_onto (n := ⟨_ :: rest, []⟩) outer _ t.stop

theorem leads_closeBlock {n m : Nesting} (hg : Grounded n.blocks) {t : Tag} {path : Path}
    (ht : t.body = .closing path) (h : n.closeBlock t path = .ok m) : Leads n m (.tag t) := by
  obtain ⟨blocks, present⟩ := n
  cases blocks with
  | nil => cases h
  | cons block rest =>
    have hclose (outer : List OpenBlock) :
        (Nesting.onto ⟨block :: rest, present⟩ outer).closeBlock t path =
          if path.source = block.name then .ok (endBlock (block :: rest ++ outer) present)
          else .error ⟨.earlier t.start, .mismatchedClose block.name path.source⟩ := rfl
    simp only [closeBlock] at h
    split at h
    next hname =>
      cases h
      have hlength := length_endBlock_lt (List.cons_ne_nil block rest) present
      refine ⟨grounded_endBlock (by simp) hg present, ?_, fun outer hroom => ?_⟩
      · have hle := Nat.le_trans (Nat.le_of_lt hlength)
          (Nesting.length_le_depth ⟨block :: rest, present⟩)
        rw [depth_endBlock (by simp) hg]
        exact (Nat.max_eq_left hle).symm
      · rw [stepKind]
        simp only [step, ht]
        rw [hclose, if_pos hname, endBlock_onto (by simp) hg,
          if_pos (by simp only [List.length_cons] at hroom hlength ⊢; omega)]
        rfl
    next => cases h

/-- What one more piece that is no block by itself can lead to. -/
theorem leads_of_step {n m : Nesting} (hg : Grounded n.blocks) {p : Piece} (hp : p.Flat)
    (h : n.step p = .ok m) : Leads n m p := by
  cases p with
  | raw text =>
    cases h
    exact leads_push hg rfl fun _ => rfl
  | tag t =>
    simp only [step] at h
    rw [Piece.Flat] at hp
    split at h
    next s hs =>
      cases h
      rw [hs] at hp
      exact leads_push hg hp.2 fun k => by simp only [step, hs]
    next inverted head ht =>
      obtain rfl := eq_of_openBlock h
      refine ⟨⟨by simp, hg⟩, ?_, fun outer _ => ?_⟩
      · simp only [Nesting.depth, heldDepth, programDepth, List.length_cons, Option.getD_none]
        omega
      · simp only [stepKind, step, ht]
        exact openBlock_onto outer _ t.stop
    next chain ht => exact leads_beginElse hg ht h
    next path ht => exact leads_closeBlock hg ht h

/-- Pieces that nest on their own nest on top of further open blocks, unless they nest too deep. -/
theorem run_onto {n m : Nesting} (hg : Grounded n.blocks) {ps : List Piece}
    (hps : ∀ p ∈ ps, p.Flat) (h : n.run ps = .ok m) :
    n.depth ≤ m.depth ∧ ∀ outer : List OpenBlock, n.depth + outer.length ≤ maxBlockDepth →
      (n.onto outer).run ps =
        if m.depth + outer.length ≤ maxBlockDepth then .ok (m.onto outer) else tooDeep := by
  induction ps generalizing n with
  | nil =>
    cases h
    exact ⟨Nat.le_refl _, fun outer hroom => (if_pos hroom).symm⟩
  | cons p ps ih =>
    rw [run_cons] at h
    obtain ⟨k, hk, hrest⟩ := exists_of_bind h
    have hleads := leads_of_step hg (hps p (by simp)) (step_of_stepKind hk)
    obtain ⟨hle, honto⟩ := ih hleads.grounded (fun q hq => hps q (.tail _ hq)) hrest
    have hdepth := hleads.depth
    refine ⟨by omega, fun outer hroom => ?_⟩
    have hlength := n.length_le_depth
    rw [run_cons, hleads.onto outer (by omega)]
    by_cases hdeep : k.blocks.length + outer.length ≤ maxBlockDepth
    · rw [if_pos hdeep]
      exact honto outer (by omega)
    · have := k.length_le_depth
      rw [if_neg hdeep, if_neg (by omega)]
      rfl

/-- Pieces that read as a program inside any open blocks, unless they nest too deep. -/
def Yields (ps : List Piece) (p : Program) : Prop :=
  ∀ outer : List OpenBlock, outer.length ≤ maxBlockDepth →
    run ⟨outer, []⟩ ps =
      if outer.length + programDepth p ≤ maxBlockDepth then .ok ⟨outer, p⟩ else tooDeep

/-- Pieces that read as a program outside of all blocks, unless they nest too deep. -/
def YieldsAtRoot (ps : List Piece) (p : Program) : Prop :=
  run {} ps = if programDepth p ≤ maxBlockDepth then .ok ⟨[], p⟩ else tooDeep

theorem Yields.atRoot {ps : List Piece} {p : Program} (h : Yields ps p) : YieldsAtRoot ps p := by
  have := h [] (by decide)
  rwa [List.length_nil, Nat.zero_add] at this

theorem yields_of_run {ps : List Piece} (hps : ∀ p ∈ ps, p.Flat) {p : Program}
    (h : run {} ps = .ok ⟨[], p⟩) : Yields ps p := by
  intro outer hroom
  have honto := (run_onto (n := {}) trivial hps h).2 outer (by
    simpa [Nesting.depth, heldDepth, programDepth] using hroom)
  simpa [Nesting.onto, Nesting.depth, heldDepth, Nat.add_comm] using honto

/-- A block with the sections in the order in which they are written. -/
def blockOf (inverted : Bool) (head : BlockHead) (first second : Program) : Statement :=
  if inverted then .block head.path head.arguments second first
  else .block head.path head.arguments first second

theorem depth_blockOf (inverted : Bool) (head : BlockHead) (first second : Program) :
    (blockOf inverted head first second).depth =
      max (programDepth first) (programDepth second) + 1 := by
  cases inverted <;> simp [blockOf, Statement.depth, Nat.max_comm]

/-- Pieces that end a block of a name after its first section, and read as its second one. -/
def Closes (name : String) (ps : List Piece) (second : Program) : Prop :=
  ∀ (block : OpenBlock) (outer : List OpenBlock) (first : Program), block.first = none →
    block.name = name → outer.length + 1 ≤ maxBlockDepth →
      run ⟨block :: outer, first⟩ ps =
        if outer.length + 1 + programDepth second ≤ maxBlockDepth then
          .ok (endBlock ({ block with first := some first } :: outer) second)
        else tooDeep

section
variable {t close : Tag} {path : Path} {ps rest : List Piece} {p q : Program} {head : BlockHead}

/-- A block with no second section ends as one with an empty one. -/
theorem closes_closing (ht : close.body = .closing path) : Closes path.source [.tag close] [] := by
  intro block outer first hfirst hname hroom
  have hend : endBlock ({ block with first := some first } :: outer) [] =
      endBlock (block :: outer) first := by
    simp [endBlock, OpenBlock.close, hfirst]
  rw [if_pos (show outer.length + 1 + programDepth [] ≤ maxBlockDepth from hroom), hend, run_cons,
    stepKind]
  simp only [step, ht, closeBlock, hname, if_true]
  rfl

theorem closes_otherwise (ht : t.body = .otherwise none) (hps : Yields ps q)
    (hclose : close.body = .closing path) :
    Closes path.source (.tag t :: (ps ++ [.tag close])) q := by
  intro block outer first hfirst hname hroom
  have hstep : (Nesting.mk (block :: outer) first).stepKind (.tag t) =
      .ok ⟨{ block with first := some first } :: outer, []⟩ := by
    simp only [stepKind, step, ht, beginElse, hfirst]
    rfl
  have hsection := hps ({ block with first := some first } :: outer) hroom
  rw [run_cons, hstep]
  change run _ (ps ++ [.tag close]) = _
  rw [run_append, hsection, List.length_cons]
  split
  next =>
    change run ⟨_ :: outer, q⟩ [.tag close] = _
    rw [run_cons, stepKind]
    simp only [step, hclose, closeBlock, hname, if_true]
    rfl
  next => rfl

/-- A block that is opened, if it may be, and both of its sections. -/
theorem run_sections {block : OpenBlock} (hfirst : block.first = none) (hps : Yields ps p)
    (hrest : Closes block.name rest q) (outer : List OpenBlock) :
    ((if outer.length + 1 ≤ maxBlockDepth then .ok ⟨block :: outer, []⟩ else tooDeep) >>=
        fun n : Nesting => n.run (ps ++ rest)) =
      if outer.length + (max (programDepth p) (programDepth q) + 1) ≤ maxBlockDepth then
        .ok (endBlock ({ block with first := some p } :: outer) q)
      else tooDeep := by
  by_cases hopen : outer.length + 1 ≤ maxBlockDepth
  · rw [if_pos hopen]
    change run ⟨block :: outer, []⟩ (ps ++ rest) = _
    rw [run_append, hps (block :: outer) hopen, List.length_cons]
    by_cases hp : outer.length + 1 + programDepth p ≤ maxBlockDepth
    · rw [if_pos hp]
      change run ⟨block :: outer, p⟩ rest = _
      rw [hrest block outer p hfirst rfl hopen]
      by_cases hq : outer.length + 1 + programDepth q ≤ maxBlockDepth
      · rw [if_pos hq, if_pos (by omega)]
      · rw [if_neg hq, if_neg (by omega)]
    · rw [if_neg hp, if_neg (by omega)]
      rfl
  · rw [if_neg hopen, if_neg (by omega)]
    rfl

theorem closes_chained (ht : t.body = .otherwise (some head)) (hps : Yields ps p)
    {name : String} (hrest : Closes name rest q) :
    Closes name (.tag t :: (ps ++ rest)) [blockOf false head p q] := by
  intro block outer first hfirst hname hroom
  have hstep : (Nesting.mk (block :: outer) first).stepKind (.tag t) =
      if outer.length + 1 + 1 ≤ maxBlockDepth then
        .ok ⟨⟨head, name, false, true, [], none⟩ :: { block with first := some first } :: outer, []⟩
      else tooDeep := by
    simp only [stepKind, step, ht, beginElse, hfirst, hname]
    exact mapError_openBlock _ _ _
  rw [run_cons, hstep, programDepth_singleton, depth_blockOf]
  exact run_sections rfl hps hrest ({ block with first := some first } :: outer)

theorem yields_block {inverted : Bool} (ht : t.body = .opening inverted head) (hps : Yields ps p)
    (hrest : Closes head.path.source rest q) :
    Yields (.tag t :: (ps ++ rest)) [blockOf inverted head p q] := by
  intro outer hroom
  have hstep : (Nesting.mk outer []).stepKind (.tag t) =
      if outer.length + 1 ≤ maxBlockDepth then
        .ok ⟨⟨head, head.path.source, inverted, false, [], none⟩ :: outer, []⟩ else tooDeep := by
    simp only [stepKind, step, ht]
    exact mapError_openBlock _ _ _
  rw [run_cons, hstep, programDepth_singleton, depth_blockOf]
  exact run_sections rfl hps hrest outer

end

/-! Texts and the programs that their pieces nest to. -/

@[simp] theorem stepKind_bare (n : Nesting) (p : Piece) : n.stepKind p.bare = n.stepKind p := by
  cases p with
  | raw text => rfl
  | tag t =>
    obtain ⟨body, start, stop, trimBefore, trimAfter⟩ := t
    obtain ⟨blocks, present⟩ := n
    have hopen (n : Nesting) (block : OpenBlock) (stop stop' : Mark) :
        (n.openBlock block stop).mapError Fault.kind =
          (n.openBlock block stop').mapError Fault.kind := by
      rw [mapError_openBlock, mapError_openBlock]
    cases body with
    | statement s => rfl
    | opening inverted head => exact hopen _ _ _ _
    | otherwise chain =>
      cases blocks with
      | nil => rfl
      | cons block rest =>
        simp only [Piece.bare, Tag.bare, stepKind, step, beginElse]
        split
        · rfl
        · cases chain with
          | none => rfl
          | some head => exact hopen _ _ _ _
    | closing path =>
      cases blocks with
      | nil => rfl
      | cons block rest =>
        simp only [Piece.bare, Tag.bare, stepKind, step, closeBlock]
        split <;> rfl

theorem run_bare (n : Nesting) (ps : List Piece) : n.run (ps.map Piece.bare) = n.run ps := by
  rw [run, run, List.foldlM_map]
  simp only [stepKind_bare]

theorem mapError_foldlM (n : Nesting) (ps : List Piece) :
    (ps.foldlM step n).mapError Fault.kind = n.run ps := by
  induction ps generalizing n with
  | nil => rfl
  | cons p ps ih =>
    rw [run_cons, List.foldlM_cons, stepKind]
    cases n.step p with
    | error f => rfl
    | ok m => exact ih m

end Nesting

theorem Tokens.flat {text : List Char} {ps : List Piece} (h : Tokens text ps) :
    ∀ p ∈ ps, p.Flat := by
  induction h with
  | nil => simp
  | tag htag _ ih => exact List.forall_mem_cons.mpr ⟨htag.read.flat, ih⟩
  | raw _ _ _ ih => exact List.forall_mem_cons.mpr ⟨trivial, ih⟩

theorem flat_trimPieces {ps : List Piece} (h : ∀ p ∈ ps, p.Flat) (trim : Bool) :
    ∀ p ∈ trimPieces trim ps, p.Flat := by
  intro p hp
  cases p with
  | raw text => trivial
  | tag t => exact h _ (mem_of_mem_trimPieces hp)

/-- The pieces of a text that parses. -/
theorem exists_tokens {source : String} {p : Program} (h : parse source = .ok p) :
    ∃ ps, Tokens source.toList ps ∧ (∀ x ∈ ps, x.Flat) ∧
      Nesting.run {} (trimPieces false ps) = .ok ⟨[], p⟩ := by
  obtain ⟨c, hc⟩ : ∃ c, c = Cursor.start source.toList := ⟨_, rfl⟩
  have hread : nest (trimPieces false c.pieces.1) c.pieces.2 = .ok p := by
    rw [hc]
    exact mapError_eq_ok.mp h
  obtain ⟨n, hn, hread⟩ := exists_of_bind hread
  obtain ⟨stop, hstop, hfinish⟩ := exists_of_bind hread
  have htokens : Tokens source.toList (c.pieces.1.map Piece.bare) := by
    have := tokens_pieces c hstop
    rwa [hc] at this ⊢
  refine ⟨_, htokens, htokens.flat, ?_⟩
  rw [trimPieces_bare, Nesting.run_bare, ← Nesting.mapError_foldlM, hn]
  obtain ⟨blocks, present⟩ := n
  cases blocks with
  | nil => cases hfinish; rfl
  | cons block rest => cases hfinish

/-- A text with its pieces reads as they nest. -/
theorem parse_of_tokens {source : String} {ps : List Piece} (ht : Tokens source.toList ps) :
    (∀ p, Nesting.run {} (trimPieces false ps) = .ok ⟨[], p⟩ → parse source = .ok p) ∧
      ∀ kind, Nesting.run {} (trimPieces false ps) = .error kind →
        ∃ e, parse source = .error e ∧ e.kind = kind := by
  obtain ⟨hps, stop, hstop⟩ := ht.pieces (c := Cursor.start source.toList) rfl
  have hread : readProgram source.toList =
      (trimPieces false (Cursor.start source.toList).pieces.1).foldlM Nesting.step {} >>=
        fun n => n.finish stop := by
    rw [readProgram, nest, hstop]
    rfl
  rw [← hps, trimPieces_bare, Nesting.run_bare, ← Nesting.mapError_foldlM, parse, hread]
  refine ⟨fun p h => ?_, fun kind h => ?_⟩
  · rw [mapError_eq_ok.mp h]
    rfl
  · obtain ⟨f, hf, rfl⟩ := mapError_eq_error.mp h
    rw [hf]
    exact ⟨_, rfl, rfl⟩

/-- The text reads as the program, unless the blocks of that nest deeper than they may. -/
def ParsesTo (source : String) (p : Program) : Prop :=
  if programDepth p ≤ maxBlockDepth then parse source = .ok p
  else ∃ e, parse source = .error e ∧ e.kind = .nestingTooDeep maxBlockDepth

theorem parsesTo_of_yieldsAtRoot {source : String} {ps : List Piece} {p : Program}
    (ht : Tokens source.toList ps) (hp : Nesting.YieldsAtRoot (trimPieces false ps) p) :
    ParsesTo source p := by
  obtain ⟨hok, herror⟩ := parse_of_tokens ht
  rw [Nesting.YieldsAtRoot] at hp
  rw [ParsesTo]
  split
  next h => exact hok p (by rw [hp, if_pos h])
  next h => exact herror _ (by rw [hp, if_neg h]; rfl)

/-- A text that parses nests blocks no deeper than they may be. -/
theorem programDepth_le_of_parse {source : String} {p : Program} (h : parse source = .ok p) :
    programDepth p ≤ maxBlockDepth := by
  obtain ⟨ps, -, hflat, hrun⟩ := exists_tokens h
  have hyields := (Nesting.yields_of_run (flat_trimPieces hflat false) hrun).atRoot
  by_contra hdeep
  rw [Nesting.YieldsAtRoot, if_neg hdeep, hrun] at hyields
  cases hyields

end Stencil
