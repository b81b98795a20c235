import Stencil.Proofs.Nesting

/-!
Pieces behind a program that is complete. They nest as they do on their own, and what they add
stands behind the program; so two lists of pieces, one after the other, read as their two programs
do.
-/
namespace Stencil

/-- What stands before a section, for the outermost of all. -/
def atRoot (q : Program) (outer : List OpenBlock) : Program := if outer.isEmpty then q else []

/-- Open blocks with `q` before the outermost one. -/
def blocksBehind (q : Program) : List OpenBlock → List OpenBlock
  | [] => []
  | block :: outer =>
    { block with before := atRoot q outer ++ block.before } :: blocksBehind q outer

/-- The statements outside of all blocks, where `present` is the section of the innermost one. -/
def rootProgram : List OpenBlock → Program → Program
  | [], present => present
  | block :: outer, _ => rootProgram outer block.before

@[simp] theorem length_blocksBehind (q : Program) (blocks : List OpenBlock) :
    (blocksBehind q blocks).length = blocks.length := by
  induction blocks with
  | nil => rfl
  | cons block outer ih => simp [blocksBehind, ih]

theorem rootProgram_congr {blocks : List OpenBlock} (h : blocks ≠ []) (p q : Program) :
    rootProgram blocks p = rootProgram blocks q := by
  obtain ⟨block, outer, rfl⟩ := List.exists_cons_of_ne_nil h
  rfl

/-- Two programs one after the other; a raw text that the first ends with and one that the second
starts with are one. -/
def joinPrograms (p q : Program) : Program :=
  match p.getLast?, q with
  | some (.raw a), .raw b :: rest => p.dropLast ++ .raw (a ++ b) :: rest
  | _, _ => p ++ q

namespace Nesting

/-- A nesting with `q` before everything. -/
def behind (q : Program) (n : Nesting) : Nesting :=
  ⟨blocksBehind q n.blocks, atRoot q n.blocks ++ n.present⟩

theorem endBlock_behind {blocks : List OpenBlock} (hne : blocks ≠ []) (hg : Grounded blocks)
    (q present : Program) :
    endBlock (blocksBehind q blocks) present = (endBlock blocks present).behind q := by
  induction blocks generalizing present with
  | nil => exact absurd rfl hne
  | cons block outer ih =>
    rw [blocksBehind, endBlock, endBlock]
    by_cases hchained : block.chained
    · rw [if_pos hchained, if_pos hchained]
      exact ih (hg.1 hchained).2 hg.2 _
    · rw [if_neg hchained, if_neg hchained, behind, ← List.append_assoc]
      rfl

theorem openBlock_behind (n : Nesting) (block : OpenBlock) (stop : Mark) (q : Program) :
    (n.behind q).openBlock { block with before := atRoot q n.blocks ++ block.before } stop =
      (n.openBlock block stop).map (behind q) := by
  rw [openBlock, openBlock, behind, length_blocksBehind]
  split <;> rfl

theorem push_behind (n : Nesting) (s : Statement) (q : Program) :
    (n.behind q).push s = (n.push s).behind q := by
  simp [push, behind]

theorem beginElse_behind (n : Nesting) (t : Tag) (chain : Option BlockHead) (q : Program) :
    (n.behind q).beginElse t chain = (n.beginElse t chain).map (behind q) := by
  obtain ⟨blocks, present⟩ := n
  cases blocks with
  | nil => rfl
  | cons block outer =>
    obtain ⟨head, name, inverted, chained, before, first⟩ := block
    cases first with
    | some first => rfl
    | none =>
      cases chain with
      | none => rfl
      | some link =>
        exact openBlock_behind ⟨⟨head, name, inverted, chained, before, some present⟩ :: outer, []⟩
          ⟨link, name, false, true, [], none⟩ t.stop q

theorem closeBlock_behind {n : Nesting} (hg : Grounded n.blocks) (t : Tag) (path : Path)
    (q : Program) : (n.behind q).closeBlock t path = (n.closeBlock t path).map (behind q) := by
  obtain ⟨blocks, present⟩ := n
  cases blocks with
  | nil => rfl
  | cons block outer =>
    simp only [closeBlock, behind, blocksBehind]
    split
    · exact congrArg Except.ok (endBlock_behind (List.cons_ne_nil block outer) hg q present)
    · rfl

/-- One more piece does the same behind a program. -/
theorem step_behind {n : Nesting} (hg : Grounded n.blocks) (p : Piece) (q : Program) :
    (n.behind q).step p = (n.step p).map (behind q) := by
  cases p with
  | raw text => exact congrArg Except.ok (push_behind n _ q)
  | tag t =>
    simp only [step]
    split
    next s _ => exact congrArg Except.ok (push_behind n s q)
    next inverted head _ => exact openBlock_behind n ⟨head, _, inverted, false, n.present, none⟩ _ q
    next chain _ => exact beginElse_behind n t chain q
    next path _ => exact closeBlock_behind hg t path q

theorem run_behind {n : Nesting} (hg : Grounded n.blocks) {ps : List Piece}
    (hps : ∀ p ∈ ps, p.Flat) (q : Program) :
    (n.behind q).run ps = (n.run ps).map (behind q) := by
  induction ps generalizing n with
  | nil => rfl
  | cons p ps ih =>
    rw [run_cons, run_cons, stepKind, stepKind, step_behind hg]
    cases hstep : n.step p with
    | error f => rfl
    | ok m =>
      exact ih (leads_of_step hg (hps p (by simp)) hstep).grounded fun x hx => hps x (.tail _ hx)

/-! What stands outside of all blocks. -/

/-- The statements outside of all blocks. -/
def root (n : Nesting) : Program := rootProgram n.blocks n.present

/-- A piece adds one statement outside of all blocks, or leaves a block open. -/
inductive Extends (n : Nesting) (p : Piece) (m : Nesting) : Prop
  | inside : m.blocks ≠ [] → m.root = n.root → Extends n p m
  | outside (s : Statement) : m.root = n.root ++ [s] →
      (Written.isRaw s → n.blocks = [] ∧ ∃ text, p = .raw text) → Extends n p m

theorem extends_push {n : Nesting} {p : Piece} {s : Statement}
    (h : Written.isRaw s → ∃ text, p = .raw text) : Extends n p (n.push s) := by
  obtain ⟨blocks, present⟩ := n
  cases blocks with
  | nil => exact .outside s rfl fun hs => ⟨rfl, h hs⟩
  | cons block outer => exact .inside (by simp [push]) rfl

theorem not_isRaw_close (block : OpenBlock) (present : Program) :
    ¬ Written.isRaw (block.close present) := by
  rw [OpenBlock.close]
  split <;> simp [Written.isRaw]

theorem extends_endBlock {blocks : List OpenBlock} (hne : blocks ≠ []) (hg : Grounded blocks)
    (present : Program) (p : Piece) : Extends ⟨blocks, present⟩ p (endBlock blocks present) := by
  induction blocks generalizing present with
  | nil => exact absurd rfl hne
  | cons block outer ih =>
    rw [endBlock]
    split
    next hchained =>
      have houter := (hg.1 hchained).2
      have hroot : root ⟨outer, [block.close present]⟩ = root ⟨block :: outer, present⟩ :=
        rootProgram_congr houter _ _
      cases ih houter hg.2 [block.close present] with
      | inside hblocks h => exact .inside hblocks (h.trans hroot)
      | outside s h hraw =>
        rw [hroot] at h
        exact .outside s h fun hs => absurd (hraw hs).1 houter
    next =>
      cases outer with
      | nil => exact .outside _ rfl fun hraw => absurd hraw (not_isRaw_close block present)
      | cons next outer => exact .inside (by simp) rfl

theorem extends_beginElse {n m : Nesting} {t : Tag} {chain : Option BlockHead}
    (h : n.beginElse t chain = .ok m) : Extends n (.tag t) m := by
  obtain ⟨blocks, present⟩ := n
  cases blocks with
  | nil => cases h
  | cons block outer =>
    simp only [beginElse] at h
    split at h
    · cases h
    · cases chain with
      | none =>
        cases h
        exact .inside (by simp) rfl
      | some link =>
        obtain rfl := eq_of_openBlock h
        exact .inside (by simp) rfl

theorem extends_closeBlock {n m : Nesting} (hg : Grounded n.blocks) {t : Tag} {path : Path}
    (h : n.closeBlock t path = .ok m) : Extends n (.tag t) m := by
  obtain ⟨blocks, present⟩ := n
  cases blocks with
  | nil => cases h
  | cons block outer =>
    simp only [closeBlock] at h
    split at h
    · cases h
      exact extends_endBlock (by simp) hg present _
    · cases h

theorem extends_step {n m : Nesting} (hg : Grounded n.blocks) {p : Piece} (hp : p.Flat)
    (h : n.step p = .ok m) : Extends n p m := by
  cases p with
  | raw text =>
    cases h
    exact extends_push fun _ => ⟨text, rfl⟩
  | tag t =>
    simp only [step] at h
    rw [Piece.Flat] at hp
    split at h
    next s hs =>
      cases h
      rw [hs] at hp
      exact extends_push fun hraw => by simp [hp.1] at hraw
    next inverted head ht =>
      obtain rfl := eq_of_openBlock h
      exact .inside (by simp) rfl
    next chain ht => exact extends_beginElse h
    next path ht => exact extends_closeBlock hg h

/-- What every piece preserves a run preserves. -/
theorem run_preserves {P : Nesting → Prop} (hP : ∀ {n m : Nesting} {p : Piece}, Grounded n.blocks →
      p.Flat → n.step p = .ok m → P n → P m)
    {n m : Nesting} (hg : Grounded n.blocks) {ps : List Piece} (hps : ∀ p ∈ ps, p.Flat)
    (h : n.run ps = .ok m) (hn : P n) : P m := by
  induction ps generalizing n with
  | nil =>
    cases h
    exact hn
  | cons p ps ih =>
    rw [run_cons] at h
    obtain ⟨k, hk, hrest⟩ := exists_of_bind h
    have hp := hps p (by simp)
    have hstep := step_of_stepKind hk
    exact ih (leads_of_step hg hp hstep).grounded (fun x hx => hps x (.tail _ hx)) hrest
      (hP hg hp hstep hn)

theorem grounded_run {n m : Nesting} (hg : Grounded n.blocks) {ps : List Piece}
    (hps : ∀ p ∈ ps, p.Flat) (h : n.run ps = .ok m) : Grounded m.blocks :=
  run_preserves (P := fun n => Grounded n.blocks)
    (fun hg hp hstep _ => (leads_of_step hg hp hstep).grounded) hg hps h hg

/-- What stands outside of all blocks, if anything does, does not start with a raw text; and if
nothing does, some block is open. -/
structure StartsWithTag (n : Nesting) : Prop where
  head : ∀ s ∈ n.root.head?, ¬ Written.isRaw s
  opened : n.root = [] → n.blocks ≠ []

theorem StartsWithTag.step {n m : Nesting} {p : Piece} (h : StartsWithTag n)
    (hstep : Extends n p m) : StartsWithTag m := by
  cases hstep with
  | inside hblocks hroot => exact ⟨hroot ▸ h.head, fun _ => hblocks⟩
  | outside s hroot hraw =>
    refine ⟨?_, by simp [hroot]⟩
    rw [hroot]
    cases hn : n.root with
    | nil =>
      have := h.opened hn
      simpa using fun hs => this (hraw hs).1
    | cons x rest => simpa [hn] using h.head

theorem StartsWithTag.run {n m : Nesting} (h : StartsWithTag n) (hg : Grounded n.blocks)
    {ps : List Piece} (hps : ∀ p ∈ ps, p.Flat) (hrun : n.run ps = .ok m) : StartsWithTag m :=
  run_preserves (fun hg hp hstep hn => hn.step (extends_step hg hp hstep)) hg hps hrun h

end Nesting

/-! Programs one after the other. -/

theorem joinPrograms_raw (p : Program) (a b : String) (q : Program) :
    joinPrograms (p ++ [.raw a]) (.raw b :: q) = p ++ .raw (a ++ b) :: q := by
  simp [joinPrograms]

theorem joinPrograms_eq_append {p q : Program}
    (h : (∀ s ∈ p.getLast?, ¬ Written.isRaw s) ∨ ∀ s ∈ q.head?, ¬ Written.isRaw s) :
    joinPrograms p q = p ++ q := by
  unfold joinPrograms
  split
  next hlast =>
    rcases h with h | h
    · exact absurd rfl (h _ hlast)
    · exact absurd rfl (h _ rfl)
  next => rfl

namespace Nesting

/-- The nesting before the last of some pieces. -/
theorem exists_of_run_append {ps : List Piece} {x : Piece} {m : Nesting}
    (hps : ∀ y ∈ ps ++ [x], y.Flat) (h : run {} (ps ++ [x]) = .ok m) :
    ∃ n, run {} ps = .ok n ∧ n.step x = .ok m ∧ Extends n x m := by
  rw [run_append] at h
  obtain ⟨n, hn, hlast⟩ := exists_of_bind h
  rw [run_cons] at hlast
  obtain ⟨k, hk, hend⟩ := exists_of_bind hlast
  cases hend
  have hg : Grounded n.blocks :=
    grounded_run (n := {}) trivial (fun y hy => hps y (List.mem_append_left _ hy)) hn
  exact ⟨n, hn, step_of_stepKind hk, extends_step hg (hps x (by simp)) (step_of_stepKind hk)⟩

section
variable {ps qs : List Piece} {p q : Program}

/-- A program of pieces that end in a tag does not end in a raw text. -/
theorem not_isRaw_getLast {t : Tag} (hps : ∀ x ∈ ps ++ [.tag t], x.Flat)
    (h : run {} (ps ++ [.tag t]) = .ok ⟨[], p⟩) : ∀ s ∈ p.getLast?, ¬ Written.isRaw s := by
  obtain ⟨n, -, -, hlast⟩ := exists_of_run_append hps h
  cases hlast with
  | inside hblocks => exact absurd rfl hblocks
  | outside s hroot hraw =>
    obtain rfl : p = n.root ++ [s] := hroot
    simpa using fun hs => hraw hs

/-- A program of pieces that start with a tag does not start with a raw text. -/
theorem not_isRaw_head {t : Tag} (hqs : ∀ x ∈ .tag t :: qs, x.Flat)
    (h : run {} (.tag t :: qs) = .ok ⟨[], q⟩) : ∀ s ∈ q.head?, ¬ Written.isRaw s := by
  rw [run_cons] at h
  obtain ⟨n, hn, hrest⟩ := exists_of_bind h
  have ht := hqs _ (List.mem_cons_self ..)
  have hstep := step_of_stepKind hn
  have hfirst : StartsWithTag n := by
    cases extends_step (n := {}) trivial ht hstep with
    | inside hblocks hroot =>
      rw [show root {} = [] from rfl] at hroot
      exact ⟨by simp [hroot], fun _ => hblocks⟩
    | outside s hroot hraw =>
      rw [show root {} = [] from rfl] at hroot
      exact ⟨by simpa [hroot] using fun hs => hraw hs, by simp [hroot]⟩
  exact (hfirst.run (leads_of_step (n := {}) trivial ht hstep).grounded
    (fun x hx => hqs x (.tail _ hx)) hrest).head

/-- Pieces behind a program, and what they are without it. -/
theorem run_eq_behind (hqs : ∀ x ∈ qs, x.Flat) (p : Program) :
    run ⟨[], p⟩ qs = (run {} qs).map (behind p) := by
  have hbehind := run_behind (n := {}) trivial hqs p
  simpa [behind, blocksBehind, atRoot] using hbehind

theorem run_raw (hqs : ∀ x ∈ qs, x.Flat) (p : Program) (a : List Char) :
    run ⟨[], p⟩ (.raw a :: qs) = (run {} qs).map (behind (p ++ [.raw (String.ofList a)])) :=
  run_eq_behind hqs _

/-- Pieces that read as a program, behind those of another. -/
theorem run_append_of_ok (hqs : ∀ x ∈ qs, x.Flat) (hp : run {} ps = .ok ⟨[], p⟩)
    (hq : run {} qs = .ok ⟨[], q⟩) : run {} (ps ++ qs) = .ok ⟨[], p ++ q⟩ := by
  rw [run_append, hp]
  change run ⟨[], p⟩ qs = _
  rw [run_eq_behind hqs, hq]
  rfl

/-- What follows a raw text is a program by itself. -/
theorem exists_of_run_raw {b : List Char} (hqs : ∀ x ∈ qs, x.Flat)
    (h : run {} (.raw b :: qs) = .ok ⟨[], q⟩) :
    ∃ rest, run {} qs = .ok ⟨[], rest⟩ ∧ q = .raw (String.ofList b) :: rest := by
  rw [run_raw hqs] at h
  cases hrun : run {} qs with
  | error kind =>
    rw [hrun] at h
    cases h
  | ok m =>
    rw [hrun] at h
    obtain ⟨blocks, rest⟩ := m
    cases blocks with
    | cons block outer => simp [Except.map, behind, blocksBehind] at h
    | nil =>
      cases h
      exact ⟨rest, rfl, rfl⟩

theorem run_joinPieces (hps : ∀ x ∈ ps, x.Flat) (hqs : ∀ x ∈ qs, x.Flat)
    (hp : run {} ps = .ok ⟨[], p⟩) (hq : run {} qs = .ok ⟨[], q⟩) :
    run {} (joinPieces ps qs) = .ok ⟨[], joinPrograms p q⟩ := by
  rcases List.eq_nil_or_concat' ps with rfl | ⟨ps, x, rfl⟩
  · cases hp
    simpa [joinPieces, joinPrograms] using hq
  · cases x with
    | tag t =>
      have hjoin := joinPieces_append_tag ps t [] qs
      rw [joinPieces] at hjoin
      rw [hjoin, joinPrograms_eq_append (.inl (not_isRaw_getLast hps hp))]
      simpa using run_append_of_ok hqs hp hq
    | raw a =>
      cases qs with
      | nil =>
        cases hq
        rw [joinPieces_nil, joinPrograms_eq_append (.inr (by simp)), List.append_nil, hp]
      | cons y qs =>
        cases y with
        | tag t =>
          rw [joinPieces_tag, joinPrograms_eq_append (.inr (not_isRaw_head hqs hq))]
          exact run_append_of_ok hqs hp hq
        | raw b =>
          have hrest : ∀ x ∈ qs, x.Flat := fun x hx => hqs x (.tail _ hx)
          obtain ⟨⟨blocks, present⟩, hn, hstep, -⟩ := exists_of_run_append hps hp
          cases hstep
          obtain ⟨rest, hrun, rfl⟩ := exists_of_run_raw hrest hq
          rw [joinPieces_raw, run_append, hn]
          change run ⟨[], present⟩ (.raw (a ++ b) :: qs) = _
          rw [run_raw hrest, hrun, joinPrograms_raw]
          simp [Except.map, behind, blocksBehind, atRoot]

end

end Nesting

end Stencil
