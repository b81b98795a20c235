import Stencil.Proofs.HtmlEntities
import Stencil.Proofs.Locality
import Stencil.Proofs.Written.Tree

/-!
Templates with escaped tags only. What they show is made of their own raw texts and of escaped
texts, so it holds no markup that the raw texts do not hold.
-/
namespace Stencil

/-! The template. -/

/-- No context of a template, and no delegate, supplies a helper. -/
def Template.NoHelpers (t : Template) (cs : Contexts) : Prop :=
  ∀ id ∈ t.chain, ∀ name, (cs.get id).helpers.get? name = none ∧
    ∀ d, (cs.get id).delegate = some d → d.helper? name = none

/-- No delegate knows how the target format is escaped. -/
def Template.NoEscapes (t : Template) (cs : Contexts) : Prop :=
  ∀ id ∈ t.chain, ∀ d, (cs.get id).delegate = some d →
    ∀ raw, d.escaped? raw t.options.targetFormat = none

section
variable {t : Template} {cs : Contexts}

theorem onlyBuiltins_of_noHelpers (h : t.NoHelpers cs) : t.OnlyBuiltins cs := by
  intro name
  have hnone : t.first? cs (·.helper? name) = none := by
    rw [Template.first?, List.findSome?_eq_none_iff]
    intro id hid
    obtain ⟨hregistry, hdelegate⟩ := h id hid name
    cases hd : (cs.get id).delegate with
    | none => simp [ExecutionContext.helper?, hregistry, hd]
    | some d => simp [ExecutionContext.helper?, hregistry, hd, hdelegate d hd]
  rw [t.run_helper? cs, hnone, Option.none_or]

theorem result_escape (h : t.NoEscapes cs) (raw : String) :
    ((t.escape raw).run cs).result = .ok (escapeHtml raw) := by
  have hnone : t.first? cs (·.escaped? t.options.targetFormat raw) = none := by
    rw [Template.first?, List.findSome?_eq_none_iff]
    intro id hid
    cases hd : (cs.get id).delegate with
    | none => simp [ExecutionContext.escaped?, hd]
    | some d => simp [ExecutionContext.escaped?, hd, h id hid d hd raw]
  rw [t.run_escape cs, hnone, Option.getD_none]

/-- A tag that is escaped, or a block that shows nothing but its sections; raw texts and insertions
are let be. -/
def Statement.Guarded : Statement → Prop
  | .tag _ _ escaped => escaped
  | .block path _ _ _ => ∃ name ∈ sectionHelpers, path.helperName? = some name
  | .raw _ | .comment _ | .insertion .. => True

/-- A raw text of a program that `p` reaches. -/
def Template.HasRaw (t : Template) (cs : Contexts) (p : Program) (text : String) : Prop :=
  ∃ q d, t.Reaches cs p q ∧ Occurs (.raw text) d q

/-- A text that is made of raw texts and escaped ones. -/
def MadeOf (raws : String → Prop) (text : String) : Prop :=
  ∃ parts : List String, text = String.join parts ∧
    ∀ part ∈ parts, raws part ∨ ∃ s, part = escapeHtml s

theorem MadeOf.single {raws : String → Prop} {text : String}
    (h : raws text ∨ ∃ s, text = escapeHtml s) : MadeOf raws text :=
  ⟨[text], by simp, by simpa using h⟩

theorem textRelation_madeOf (raws : String → Prop) :
    TextRelation fun text _ => MadeOf raws text where
  empty := ⟨[], rfl, by simp⟩
  append := by
    rintro _ _ _ _ ⟨first, rfl, hfirst⟩ ⟨second, rfl, hsecond⟩
    refine ⟨first ++ second, String.join_append.symm, fun part hpart => ?_⟩
    rcases List.mem_append.mp hpart with hpart | hpart
    · exact hfirst part hpart
    · exact hsecond part hpart

/-- Markup in a text that is made of raw texts and escaped ones is that of a raw text. -/
theorem MadeOf.notMem_markup {raws : String → Prop} {text : String} (h : MadeOf raws text)
    {c : Char} (hc : c ∈ markup) (hr : ∀ x, raws x → c ∉ x.toList) : c ∉ text.toList := by
  obtain ⟨parts, rfl, hparts⟩ := h
  rw [String.toList_join]
  intro hmem
  obtain ⟨part, hpart, hc'⟩ := List.mem_flatMap.mp hmem
  rcases hparts part hpart with hraw | ⟨s, rfl⟩
  · exact hr part hraw hc'
  · exact notMem_escapeHtml hc s hc'

/-- Where no raw text holds an ampersand, each ampersand starts an entity. -/
theorem MadeOf.ampersandsEscaped {raws : String → Prop} {text : String} (h : MadeOf raws text)
    (hr : ∀ x, raws x → '&' ∉ x.toList) : AmpersandsEscaped text.toList := by
  obtain ⟨parts, rfl, hparts⟩ := h
  rw [String.toList_join]
  apply AmpersandsEscaped.flatMap
  intro part hpart
  rcases hparts part hpart with hraw | ⟨s, rfl⟩
  · exact .of_notMem (hr part hraw)
  · exact ampersandsEscaped_escapeHtml s

/-- What a guarded statement shows itself is a raw text or an escaped one. -/
theorem Statement.Guarded.shows {s : Statement} (hg : s.Guarded) (hb : t.OnlyBuiltins cs)
    (he : t.NoEscapes cs) {raws : String → Prop} (hr : ∀ text, s = .raw text → raws text)
    {x : String} (h : s.Shows t cs x) : MadeOf raws x := by
  cases h with
  | raw => exact .single (.inl (hr x rfl))
  | @escaped _ _ raw _ hx =>
    rw [result_escape he] at hx
    cases hx
    exact .single (.inr ⟨raw, rfl⟩)
  | plain => cases hg
  | called _ hname hhelper hnot =>
    obtain ⟨name, hmem, hpath⟩ := hg
    rw [hname] at hpath
    cases hpath
    rw [hb] at hhelper
    exact absurd (Except.ok.inj hhelper) (hnot _ hmem)

/-- The output of a template whose tags are escaped and whose blocks show nothing but their sections
is made of raw texts and escaped texts, whatever the context. So it holds no markup that no raw text
holds, and if no raw text holds an ampersand then each ampersand of it starts an entity. -/
theorem render_html_safe (hh : t.NoHelpers cs) (he : t.NoEscapes cs) {p : Program}
    (hp : parse t.source = .ok p)
    (hg : ∀ q s d, t.Reaches cs p q → Occurs s d q → s.Guarded) {v : Value} {out : String}
    (h : ((t.render v).run cs).result = .ok out) :
    MadeOf (t.HasRaw cs p) out ∧
      (∀ c ∈ markup, (∀ x, t.HasRaw cs p x → c ∉ x.toList) → c ∉ out.toList) ∧
      ((∀ x, t.HasRaw cs p x → '&' ∉ x.toList) → AmpersandsEscaped out.toList) := by
  have hfits : ∀ p', parse t.source = .ok p' → ∀ q, t.Reaches cs p' q → ∀ s d, Occurs s d q →
      FitsAnywhere t cs cs (fun text _ => MadeOf (t.HasRaw cs p) text) s := by
    intro p' hp' q hq s d hs
    obtain rfl : p = p' := by simpa [hp] using hp'
    have hbuiltin := onlyBuiltins_of_noHelpers hh
    refine ⟨fun name _ => hbuiltin.shares name, fun _ _ _ _ => rfl,
      fun e _ path _ => ⟨le_top, fun _ _ => trivial⟩, fun x hx => ?_⟩
    refine (hg q s d hq hs).shows hbuiltin he (fun text htext => ?_) hx
    subst htext
    exact ⟨q, d, hq, hs⟩
  -- a template compared with itself: the relation of texts says what each of its texts is made of
  have halike : Render.Alike (fun _ => False) cs cs (fun text _ => MadeOf (t.HasRaw cs p) text)
      (t.render v) (t.render v) :=
    alike_render Value.indistinct_eq textsAlike_self (textRelation_madeOf _) hfits rfl
  obtain ⟨-, -, hmade⟩ := halike.related h
  exact ⟨hmade, fun c hc => hmade.notMem_markup hc, hmade.ampersandsEscaped⟩

open Written in
/-- A raw text without markup and a tag, in a block, for a value that holds markup. -/
theorem render_html_safe_markup :
    let t : Template :=
      ⟨"\x7b\x7b#[if] [name]\x7d\x7dDear \x7b\x7b[name]\x7d\x7d\x7b\x7b/[if]\x7d\x7d", {}, .global,
        none⟩
    let v : Value := .object [("name", .string "<A&B>")]
    let out := "Dear &lt;A&amp;B&gt;"
    ((t.render v).run .empty).result = .ok out ∧ (∀ c ∈ markup, c ∉ out.toList) ∧
      AmpersandsEscaped out.toList := by
  intro t v out
  let head : Path := ⟨[.field "if"], "[if]"⟩
  let name : Path := ⟨[.field "name"], "[name]"⟩
  let p : Program := [.block head ⟨[.path name], {}⟩ [.raw "Dear ", .tag (.path name) {} true] []]
  have hp : parse t.source = .ok p := by
    have hhead : WritablePath head :=
      ⟨by simp [head], ⟨0, none, [.field "if"], rfl, by decide⟩, by decide, by decide⟩
    have hname : WritablePath name :=
      ⟨by simp [name], ⟨0, none, [.field "name"], rfl, by decide⟩, by decide, by decide⟩
    have hraw : WritableRaw true "Dear ".toList := ⟨by decide, by decide, fun _ => by simp [Paired]⟩
    have hw : Writable p := by
      have hargs : WritableArguments ⟨[.path name], {}⟩ :=
        ⟨by simpa [WritableExpression] using hname, by simp, by simp, by simp⟩
      refine ⟨.block hhead hargs ?_ .nil .nil, by decide⟩
      exact .raw hraw (by simp [isRaw]) (.tag hname ⟨by simp, by simp, by simp, by simp⟩ .nil)
    have hspace : Gap [' '] := ⟨by simp, by simp [Blank, isSpace]⟩
    have htext : ProgramText false p _ :=
      .block (.opening (.intro .nil (.positional hspace .nil) .nil))
        (.raw (.tag (.escaped (.intro .nil .nil .nil)) .nil)) (.closing .nil .nil) .nil
    exact htext.parse hw
  have hstatements : ∀ q s d, t.Reaches .empty p q → Occurs s d q →
      s.Guarded ∧ ∀ x, s = .raw x → x = "Dear " := by
    intro q s d hq hs
    obtain rfl := hq.eq_self (by simp [p])
    simp only [p] at hs
    cases hs with
    | here => exact ⟨⟨"if", by simp [sectionHelpers], rfl⟩, by simp⟩
    | later hs => cases hs
    | inverse hs => cases hs
    | main hs =>
      cases hs with
      | here => exact ⟨trivial, by simp⟩
      | later hs =>
        cases hs with
        | here => exact ⟨rfl, by simp⟩
        | later hs => cases hs
  have hout : ((t.render v).run .empty).result = .ok out := by
    obtain ⟨f, hf⟩ := exists_standAlone t
    rw [hf, Template.renderWith, hp]
    rfl
  have hraws : ∀ x, t.HasRaw .empty p x → x = "Dear " := by
    rintro x ⟨q, d, hq, hx⟩
    exact (hstatements q _ d hq hx).2 x rfl
  have hhelpers : t.NoHelpers .empty := fun _ _ _ => ⟨rfl, fun _ hd => by cases hd⟩
  have hescapes : t.NoEscapes .empty := fun _ _ _ hd => by cases hd
  obtain ⟨-, hmarkup, hampersands⟩ := render_html_safe hhelpers hescapes hp
    (fun q s d hq hs => (hstatements q s d hq hs).1) hout
  have hplain : ∀ c ∈ '&' :: markup, c ∉ "Dear ".toList := by simp [markup]
  refine ⟨hout, fun c hc => hmarkup c hc fun x hx => ?_, hampersands fun x hx => ?_⟩
  · rw [hraws x hx]
    exact hplain c (.tail _ hc)
  · rw [hraws x hx]
    exact hplain '&' (.head _)

end

end Stencil
