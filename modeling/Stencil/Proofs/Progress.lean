import Stencil.Proofs.Scan.Block

/-!
Progress of the parser. Reading a template by the offsets of its bytes never cuts a character and
never stands still: each loop ends within one round more than the text has bytes, and no block has
to be read deeper than blocks may nest.
-/
namespace Stencil

namespace Scan

theorem runs_program (text : List Char) :
    Runs text (program maxBlockDepth) {} fun result _ =>
      result = (readProgram text).mapError (Fault.error text) := by
  have hread : Ends text (readProgram text) (program maxBlockDepth) (Cursor.start text) false 0
      fun program _ _ => readProgram text = .ok program := by
    refine .bind (ends_statements [] (opens_block (Nat.le_of_eq (Nat.zero_add _).symm)) rfl rfl)
      fun (program, terminator) trims d _ ⟨hplaced, hV⟩ => ?_
    cases terminator with
    | endOfText => exact ends_pure hV
    | otherwise chain start => exact ends_failAt hplaced hV
    | closing path start => exact ends_failAt hplaced hV
  refine (hread (.refl _)).mono fun result t ⟨_, ht⟩ => ?_
  cases result with
  | ok program =>
    obtain ⟨_, _, _, ht⟩ := ht
    rw [ht]
    rfl
  | error e =>
    obtain ⟨f, ht, rfl⟩ := ht
    rw [ht]
    rfl

end Scan

/-- A text of `n` bytes is scanned to its program, or its error, with `n + 1` rounds for each loop
and as many levels of blocks as may nest. Every offset that the cursor comes to, that a search finds
or at which the text is cut is one of the text, between characters; and each round after which a
loop goes on, and each expression, path and tag, takes at least one byte. -/
theorem scan_advances (source : String) :
    ∃ events, scan (source.utf8ByteSize + 1) maxBlockDepth source = some (parse source, events) ∧
      (∀ o, .moved o ∈ events ∨ .found o ∈ events →
        o ≤ source.utf8ByteSize ∧ o ∈ boundaries source) ∧
      (∀ start stop, .cut start stop ∈ events → start ≤ stop ∧ stop ≤ source.utf8ByteSize ∧
        start ∈ boundaries source ∧ stop ∈ boundaries source) ∧
      (∀ loop start stop, .repeated loop start stop ∈ events → start < stop) ∧
      ∀ part start stop, .read part start stop ∈ events → start < stop := by
  obtain ⟨text, rfl⟩ : ∃ text, source = String.ofList text := ⟨source.toList, by simp⟩
  have hboundary {o : Nat} (h : IsBoundary text o) :
      o ≤ (String.ofList text).utf8ByteSize ∧ o ∈ boundaries (String.ofList text) := by
    obtain ⟨before, hbefore, rfl⟩ := h
    have hle := byteLength_le_of_prefix hbefore
    rw [utf8ByteSize_ofList]
    exact ⟨hle, mem_boundaries_ofList.mpr ⟨before, hbefore, rfl⟩⟩
  obtain ⟨o, hrun, hsound, hresult⟩ := Scan.runs_program text
  refine ⟨o.events, ?_, fun p hp => ?_, fun start stop hp => ?_, fun _ _ _ hp => hsound _ hp,
    fun _ _ _ hp => hsound _ hp⟩
  · rw [scan, String.toList_ofList, utf8ByteSize_ofList, hrun, Option.map_some, hresult, parse,
      String.toList_ofList]
  · rcases hp with hp | hp <;> exact hboundary (hsound _ hp)
  · obtain ⟨hle, hstart, hstop⟩ := hsound _ hp
    exact ⟨hle, (hboundary hstop).1, (hboundary hstart).2, (hboundary hstop).2⟩

/-- Even a text of no bytes takes a round. -/
example : scan 0 maxBlockDepth "" = none := rfl

end Stencil
