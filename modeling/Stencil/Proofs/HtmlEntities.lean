import Mathlib.Logic.Function.Basic
import Stencil.Text.Html

/-!
HTML escaping as a code. Escaped text holds no markup, and every ampersand in it starts an entity;
so the entities in it can be replaced from left to right, which gives back the text.
-/
namespace Stencil

/-! What escaping leaves. -/

/-- The characters that escaped text never holds. -/
def markup : List Char := ['<', '>', '"', '\'']

/-- What follows the ampersand of an entity. -/
def entities : List (List Char) :=
  [['a', 'm', 'p', ';'], ['l', 't', ';'], ['g', 't', ';'], ['q', 'u', 'o', 't', ';'],
    ['#', 'x', '2', '7', ';']]

/-- A text in which every ampersand starts an entity. -/
def AmpersandsEscaped (text : List Char) : Prop :=
  ∀ before after, text = before ++ '&' :: after → ∃ e ∈ entities, e <+: after

theorem AmpersandsEscaped.append {s t : List Char} (hs : AmpersandsEscaped s)
    (ht : AmpersandsEscaped t) : AmpersandsEscaped (s ++ t) := by
  intro before after h
  rcases List.append_eq_append_iff.mp h with ⟨more, hbefore, hafter⟩ | ⟨more, hbefore, hafter⟩
  · exact ht more after hafter
  · cases more with
    | nil => exact ht [] after hafter.symm
    | cons c more =>
      obtain ⟨rfl, rfl⟩ : '&' = c ∧ after = more ++ t := by simpa using hafter
      obtain ⟨e, he, hprefix⟩ := hs before more hbefore
      exact ⟨e, he, hprefix.trans (List.prefix_append more t)⟩

theorem AmpersandsEscaped.of_notMem {s : List Char} (h : '&' ∉ s) : AmpersandsEscaped s := by
  rintro before after rfl
  simp at h

theorem AmpersandsEscaped.flatMap {α : Type} {f : α → List Char} {xs : List α}
    (h : ∀ x ∈ xs, AmpersandsEscaped (f x)) : AmpersandsEscaped (xs.flatMap f) := by
  induction xs with
  | nil => exact .of_notMem (by simp)
  | cons x xs ih =>
    rw [List.flatMap_cons]
    exact (h x (.head _)).append (ih fun y hy => h y (.tail _ hy))

theorem AmpersandsEscaped.of_entity {e : List Char} (he : e ∈ entities) :
    AmpersandsEscaped ('&' :: e) := by
  intro before after h
  cases before with
  | nil =>
    obtain rfl : e = after := by simpa using h
    exact ⟨e, he, List.prefix_refl e⟩
  | cons c before =>
    obtain ⟨-, rfl⟩ : '&' = c ∧ e = before ++ '&' :: after := by simpa using h
    have hnone : ∀ e ∈ entities, '&' ∉ e := by decide
    exact absurd (by simp) (hnone _ he)

theorem ampersandsEscaped_htmlEntity (c : Char) : AmpersandsEscaped (htmlEntity c) := by
  unfold htmlEntity
  split
  · exact .of_entity (by simp [entities])
  · exact .of_entity (by simp [entities])
  · exact .of_entity (by simp [entities])
  · exact .of_entity (by simp [entities])
  · exact .of_entity (by simp [entities])
  next h _ _ _ _ => exact .of_notMem (by simpa [eq_comm] using h)

theorem notMem_htmlEntity {c : Char} (hc : c ∈ markup) (d : Char) : c ∉ htmlEntity d := by
  simp only [markup, List.mem_cons, List.not_mem_nil, or_false] at hc
  unfold htmlEntity
  split
  · rcases hc with rfl | rfl | rfl | rfl <;> decide
  · rcases hc with rfl | rfl | rfl | rfl <;> decide
  · rcases hc with rfl | rfl | rfl | rfl <;> decide
  · rcases hc with rfl | rfl | rfl | rfl <;> decide
  · rcases hc with rfl | rfl | rfl | rfl <;> decide
  next hlt hgt hquot happ =>
    rw [List.mem_singleton]
    rintro rfl
    rcases hc with rfl | rfl | rfl | rfl
    · exact hlt rfl
    · exact hgt rfl
    · exact hquot rfl
    · exact happ rfl

theorem ampersandsEscaped_escapeHtml (s : String) : AmpersandsEscaped (escapeHtml s).toList := by
  rw [toList_escapeHtml]
  exact .flatMap fun c _ => ampersandsEscaped_htmlEntity c

theorem notMem_escapeHtml {c : Char} (hc : c ∈ markup) (s : String) :
    c ∉ (escapeHtml s).toList := by
  rw [toList_escapeHtml]
  intro hmem
  obtain ⟨d, -, hd⟩ := List.mem_flatMap.mp hmem
  exact notMem_htmlEntity hc d hd

/-- The characters with an entity, each with the one that stands for it. -/
def entityTable : List (Char × String) :=
  [('&', "&amp;"), ('<', "&lt;"), ('>', "&gt;"), ('"', "&quot;"), ('\'', "&#x27;")]

theorem htmlEntity_eq_lookup (c : Char) :
    htmlEntity c = ((entityTable.lookup c).getD c.toString).toList := by
  unfold htmlEntity
  split
  iterate 5 rfl
  next hamp hlt hgt hquot happ =>
    simp [entityTable, List.lookup_cons, beq_false_of_ne hamp, beq_false_of_ne hlt,
      beq_false_of_ne hgt, beq_false_of_ne hquot, beq_false_of_ne happ]

theorem escapeHtml_eq_join (s : String) :
    escapeHtml s =
      String.join (s.toList.map fun c => (entityTable.lookup c).getD c.toString) := by
  apply String.toList_injective
  rw [toList_escapeHtml, String.toList_join, List.flatMap_map]
  exact congrArg (List.flatMap · s.toList) (funext htmlEntity_eq_lookup)

/-! Texts that stay as they are. -/

theorem hasEntity_iff {c : Char} : hasEntity c = true ↔ c ∈ '&' :: markup := by
  simp [hasEntity, markup]

theorem length_htmlEntity {c : Char} (h : hasEntity c) : 4 ≤ (htmlEntity c).length := by
  have hall : ∀ c ∈ '&' :: markup, 4 ≤ (htmlEntity c).length := by simp [markup, htmlEntity]
  exact hall c (hasEntity_iff.mp h)

/-- Every character with an entity makes the text longer by three or more. -/
theorem length_flatMap_htmlEntity (text : List Char) :
    text.length + 3 * text.countP hasEntity ≤ (text.flatMap htmlEntity).length := by
  induction text with
  | nil => exact Nat.le_refl 0
  | cons c rest ih =>
    rw [List.flatMap_cons, List.length_append, List.length_cons]
    cases hc : hasEntity c with
    | true =>
      have hentity := length_htmlEntity hc
      rw [List.countP_cons_of_pos hc]
      omega
    | false =>
      rw [List.countP_cons_of_neg (by simp [hc]), htmlEntity_of_not_hasEntity hc,
        List.length_singleton]
      omega

theorem escapeHtml_eq_self {s : String} :
    escapeHtml s = s ↔ ∀ c ∈ '&' :: markup, c ∉ s.toList := by
  constructor
  · intro h c hc hmem
    have hlength := length_flatMap_htmlEntity s.toList
    rw [← toList_escapeHtml, h] at hlength
    have hnone : s.toList.countP hasEntity = 0 := by omega
    exact List.countP_eq_zero.mp hnone c hmem (hasEntity_iff.mpr hc)
  · intro h
    have hplain : ∀ c ∈ s.toList, hasEntity c = false := fun c hc =>
      Bool.eq_false_iff.mpr fun hentity => h c (hasEntity_iff.mp hentity) hc
    rw [escapeHtml_eq_flatMap, flatMap_htmlEntity_of_plain hplain, String.ofList_toList]

/-! What is read back. -/

/-- The text with every entity replaced by its character, from left to right. -/
def replaceEntities : List Char → List Char
  | '&' :: 'a' :: 'm' :: 'p' :: ';' :: rest => '&' :: replaceEntities rest
  | '&' :: 'l' :: 't' :: ';' :: rest => '<' :: replaceEntities rest
  | '&' :: 'g' :: 't' :: ';' :: rest => '>' :: replaceEntities rest
  | '&' :: 'q' :: 'u' :: 'o' :: 't' :: ';' :: rest => '"' :: replaceEntities rest
  | '&' :: '#' :: 'x' :: '2' :: '7' :: ';' :: rest => '\'' :: replaceEntities rest
  | c :: rest => c :: replaceEntities rest
  | [] => []

theorem replaceEntities_cons {c : Char} (h : c ≠ '&') (rest : List Char) :
    replaceEntities (c :: rest) = c :: replaceEntities rest := by
  rw [replaceEntities.eq_def]
  split <;> simp_all

theorem replaceEntities_htmlEntity (c : Char) (rest : List Char) :
    replaceEntities (htmlEntity c ++ rest) = c :: replaceEntities rest := by
  unfold htmlEntity
  split
  iterate 5 rfl
  next h _ _ _ _ => exact replaceEntities_cons h rest

theorem replaceEntities_escapeHtml (s : String) :
    replaceEntities (escapeHtml s).toList = s.toList := by
  rw [toList_escapeHtml]
  induction s.toList with
  | nil => rfl
  | cons c rest ih => rw [List.flatMap_cons, replaceEntities_htmlEntity, ih]

theorem escapeHtml_inj : Function.Injective escapeHtml := by
  intro s t h
  have hback := congrArg (fun x => replaceEntities x.toList) h
  simp only [replaceEntities_escapeHtml] at hback
  exact String.toList_injective hback

/-- Escaping is a code for texts that loses nothing.
* Every character is written by itself, one of the table as its entity and any other as it is; so a
  text can be escaped in parts.
* Escaped text holds no markup, and each ampersand in it starts an entity.
* Replacing the entities from left to right gives back the text, whatever it looks like, so no two
  texts are escaped alike.
* A text stays as it is just if it holds no character of the table. -/
theorem escapeHtml_lossless :
    (∀ s, escapeHtml s =
      String.join (s.toList.map fun c => (entityTable.lookup c).getD c.toString)) ∧
    (∀ s t, escapeHtml (s ++ t) = escapeHtml s ++ escapeHtml t) ∧
    (∀ s, (∀ c ∈ ['<', '>', '"', '\''], c ∉ (escapeHtml s).toList) ∧
      AmpersandsEscaped (escapeHtml s).toList) ∧
    (∀ s, replaceEntities (escapeHtml s).toList = s.toList) ∧
    Function.Injective escapeHtml ∧
    ∀ s, escapeHtml s = s ↔ ∀ c ∈ ['&', '<', '>', '"', '\''], c ∉ s.toList :=
  ⟨escapeHtml_eq_join, escapeHtml_append,
    fun s => ⟨fun _ hc => notMem_escapeHtml hc s, ampersandsEscaped_escapeHtml s⟩,
    replaceEntities_escapeHtml, escapeHtml_inj, fun _ => escapeHtml_eq_self⟩

/-- A text that already looks escaped, in front of markup. -/
theorem escapeHtml_lossless_nested :
    let s := "&lt;<a title='&amp;'>"
    let text := "&amp;lt;&lt;a title=&#x27;&amp;amp;&#x27;&gt;"
    escapeHtml s = text ∧ '<' ∉ text.toList ∧ AmpersandsEscaped text.toList ∧
      replaceEntities text.toList = s.toList ∧ escapeHtml text ≠ text := by
  intro s text
  obtain ⟨himages, -, hclean, hback, -, hself⟩ := escapeHtml_lossless
  have htext : escapeHtml s = text := by
    rw [himages]
    decide
  obtain ⟨hmarkup, hampersands⟩ := hclean s
  rw [htext] at hmarkup hampersands
  refine ⟨htext, hmarkup '<' (by simp), hampersands, htext ▸ hback s, fun hsame => ?_⟩
  exact (hself text).mp hsame '&' (by simp) (by decide)

end Stencil
