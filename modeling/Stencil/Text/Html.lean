/-!
HTML escaping: each of the five characters that markup gives a meaning to is written as an entity,
and every other character as itself.
-/
namespace Stencil

/-- How `c` is written in HTML text and attributes. -/
def htmlEntity (c : Char) : List Char :=
  match c with
  | '&' => ['&', 'a', 'm', 'p', ';']
  | '<' => ['&', 'l', 't', ';']
  | '>' => ['&', 'g', 't', ';']
  | '"' => ['&', 'q', 'u', 'o', 't', ';']
  | '\'' => ['&', '#', 'x', '2', '7', ';']
  | c => [c]

/-- Whether `c` is written as an entity. -/
def hasEntity (c : Char) : Bool := ['&', '<', '>', '"', '\''].contains c

/-- The text with every character of a meaning in HTML written as its entity. A text without one is
left alone, and so is what stands before the first. -/
def escapeHtml (text : String) : String :=
  match text.toList.findIdx? hasEntity with
  | none => text
  | some first =>
    String.ofList (text.toList.take first ++ (text.toList.drop first).flatMap htmlEntity)

theorem htmlEntity_of_not_hasEntity {c : Char} (h : hasEntity c = false) : htmlEntity c = [c] := by
  unfold htmlEntity
  split
  iterate 5 exact absurd h (by decide)
  rfl

theorem flatMap_htmlEntity_of_plain {text : List Char} (h : ∀ c ∈ text, hasEntity c = false) :
    text.flatMap htmlEntity = text := by
  induction text with
  | nil => rfl
  | cons c rest ih =>
    rw [List.flatMap_cons, htmlEntity_of_not_hasEntity (h c (.head _)),
      ih fun d hd => h d (.tail _ hd), List.singleton_append]

/-- Escaping goes character by character. -/
theorem escapeHtml_eq_flatMap (text : String) :
    escapeHtml text = String.ofList (text.toList.flatMap htmlEntity) := by
  unfold escapeHtml
  split
  next hnone =>
    rw [flatMap_htmlEntity_of_plain (List.findIdx?_eq_none_iff.1 hnone), String.ofList_toList]
  next first hfirst =>
    obtain ⟨_, -, hbefore⟩ := List.findIdx?_eq_some_iff_getElem.1 hfirst
    have hplain : ∀ c ∈ text.toList.take first, hasEntity c = false := by
      intro c hc
      obtain ⟨i, hi, rfl⟩ := List.mem_take_iff_getElem.1 hc
      exact Bool.eq_false_iff.2 (hbefore i (by omega))
    rw [← flatMap_htmlEntity_of_plain hplain, ← List.flatMap_append, List.take_append_drop]

theorem toList_escapeHtml (text : String) :
    (escapeHtml text).toList = text.toList.flatMap htmlEntity := by
  rw [escapeHtml_eq_flatMap, String.toList_ofList]

theorem escapeHtml_append (s t : String) : escapeHtml (s ++ t) = escapeHtml s ++ escapeHtml t := by
  simp [escapeHtml_eq_flatMap]

end Stencil
