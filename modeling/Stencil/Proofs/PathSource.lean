import Stencil.Proofs.PathText

/-!
Paths read back from their sources. The source of a path is a path by itself: behind it any closing
brace may follow in place of what followed it.
-/
namespace Stencil

/-- No segment ends with a tilde. -/
theorem NameText.getLast?_ne {name text : List Char} (h : NameText name text) (front : List Char) :
    text ≠ [] ∧ (front ++ text).getLast? ≠ some '~' := by
  cases h with
  | bare hne hn =>
    refine ⟨hne, ?_⟩
    rw [List.getLast?_append_of_ne_nil front hne]
    intro hlast
    exact absurd (hn '~' (List.mem_of_getLast? hlast)) (by decide)
  | bracketed =>
    refine ⟨by simp, ?_⟩
    rw [← List.append_assoc, List.getLast?_concat]
    simp

theorem SegmentText.getLast?_ne {s : PathStep} {text : List Char} (h : SegmentText s text)
    (front : List Char) : text ≠ [] ∧ (front ++ text).getLast? ≠ some '~' := by
  cases h with
  | this => exact ⟨by simp, by simp⟩
  | field hname => exact hname.getLast?_ne front

theorem TailText.getLast?_ne {rest : List PathStep} {tail : List Char} (h : TailText rest tail)
    {front : List Char} (hfront : front.getLast? ≠ some '~') :
    (front ++ tail).getLast? ≠ some '~' := by
  induction h generalizing front with
  | nil => rwa [List.append_nil]
  | @cons mark s text rest tail _ hs _ ih =>
    have htext : front ++ mark :: (text ++ tail) = (front ++ [mark]) ++ text ++ tail := by simp
    rw [htext]
    exact ih (hs.getLast?_ne _).2

theorem PathText.getLast?_ne {steps : List PathStep} {text : List Char} (h : PathText steps text) :
    text.getLast? ≠ some '~' := by
  cases h with
  | segments _ hs htail =>
    rw [← List.append_assoc]
    exact htail.getLast?_ne (hs.getLast?_ne _).2
  | datum _ hname htail =>
    rw [← List.append_assoc, ← List.cons_append, ← List.cons_append]
    exact htail.getLast?_ne (hname.getLast?_ne _).2
  | alone hfront =>
    cases hfront with
    | onlyParents => simp [List.getLast?_append]
    | onlyPoint => simp

namespace Cursor

theorem follows_singleton_eq_false {m : Mark} {mark : Char} {x : List Char}
    (h : ∀ rest, x ≠ mark :: rest) : (Cursor.mk m x).follows [mark] = false := by
  rw [Bool.eq_false_iff]
  intro hx
  obtain ⟨rest, hrest⟩ := List.isPrefixOf_iff_prefix.mp hx
  exact h rest hrest.symm

/-- A path is read back from its source, before any closing brace. -/
theorem path_of_source {c d : Cursor} {p : Path} (h : c.path = .ok (p, d)) (m : Mark)
    (tail : List Char) :
    (Cursor.mk m (p.source.toList ++ '}' :: tail)).path =
      .ok (p, ⟨m.past p.source.toList, '}' :: tail⟩) := by
  obtain ⟨steps, source⟩ := p
  obtain ⟨text, -, rfl, htext⟩ := exists_pathText h
  rw [String.toList_ofList]
  exact htext.path (fun c hc => .inr (.inl (by simpa [eq_comm] using hc))) m

/-- No path ends with a tilde. -/
theorem source_getLast? {c d : Cursor} {p : Path} (h : c.path = .ok (p, d)) :
    p.source.toList.getLast? ≠ some '~' := by
  obtain ⟨text, -, hsource, htext⟩ := exists_pathText h
  rw [hsource, String.toList_ofList]
  exact htext.getLast?_ne

end Cursor

end Stencil
