import Stencil.Proofs.Locality
import Stencil.Proofs.Written.Tree

/-!
The names that a template spells. Registries and delegates are asked only for the single names at
the head of tags and blocks, for the names of insertions, and how texts are localized and escaped.
So a helper is out of reach of a template that does not spell its name in such a place.
-/
namespace Stencil

/-- `name` is the name of a helper at the head of a tag or block of a program that `p` reaches. -/
def Template.Calls (t : Template) (cs : Contexts) (p : Program) (name : String) : Prop :=
  ∃ q s d, t.Reaches cs p q ∧ Occurs s d q ∧ s.helperName? = some name

/-- `name` is the name of a partial that a program that `p` reaches inserts. -/
def Template.Inserts (t : Template) (cs : Contexts) (p : Program) (name : String) : Prop :=
  ∃ q context named d, t.Reaches cs p q ∧ Occurs (.insertion name context named) d q

/-- Two states of all contexts that answer alike what a program asks them: they have one helper, of
every template, for each name that it calls, one partial for each name that it inserts, and localize
and escape alike. -/
structure Template.AnswersAlike (t : Template) (cs ds : Contexts) (p : Program) : Prop where
  called : ∀ name, t.Calls cs p name → t.SharesBuiltin cs ds name
  inserted : ∀ name, t.Inserts cs p name →
    ((t.partial? name).run cs).result = ((t.partial? name).run ds).result
  texts : TextsAlike t cs ds

/-- Two states of all contexts that differ at most in the helpers registered under `name`. -/
structure Contexts.SameBut (name : String) (cs ds : Contexts) : Prop where
  helpers : ∀ id other, other ≠ name →
    (cs.get id).helpers.get? other = (ds.get id).helpers.get? other
  partials : ∀ id, (cs.get id).partials = (ds.get id).partials
  delegate : ∀ id, (cs.get id).delegate = (ds.get id).delegate

/-- A single name, plain or in brackets, is all of a path that can name a helper. -/
theorem Path.helperName?_eq_some {path : Path} {name : String} :
    path.helperName? = some name ↔ path.steps = [.field name] := by
  unfold Path.helperName?
  split
  next other h => simp [h]
  next h => simpa using fun hsteps => h name hsteps

section
variable {t : Template} {cs ds : Contexts} {p : Program}

theorem Template.AnswersAlike.fits (h : t.AnswersAlike cs ds p) {q : Program}
    (hq : t.Reaches cs p q) {s : Statement} {d : Nat} (hs : Occurs s d q) :
    FitsAnywhere t cs ds (· = ·) s where
  helper name hname := h.called name ⟨q, s, d, hq, hs, hname⟩
  inserted name context named hinsertion :=
    h.inserted name ⟨q, context, named, d, hq, hinsertion ▸ hs⟩
  within _ _ _ _ := ⟨le_top, fun _ _ => trivial⟩
  shown _ _ := rfl

/-- What a program does not ask, its rendering does not depend on. -/
theorem Template.AnswersAlike.result_renderProgram (h : t.AnswersAlike cs ds p)
    (f : String → Value → Render String) (room : Nat) (scope : Scope) :
    ((renderProgram t f room p scope).run cs).result =
      ((renderProgram t f room p scope).run ds).result := by
  have hfits : ∀ q, t.Reaches cs p q →
      AtDepth (fun d => Fits t cs ds (fun _ => True) (· = ·) (⊤ + d)) 0 q := by
    intro q hq s d hs
    rw [top_add]
    exact h.fits hq hs
  have hscope : ScopeAlike (· = ·) (fun _ => True) ⊤ scope scope := fun _ _ =>
    rel_refl (fun _ => ⟨rfl, fun _ _ => rel_refl (fun _ => rfl) _⟩) _
  have halike : Render.Alike (fun _ => False) cs ds (· = ·) (renderProgram t f room p scope)
      (renderProgram t f room p scope) :=
    alike_renderProgram Value.indistinct_eq h.texts .eq hfits room .self hscope
  exact (halike.right fun _ _ h => h).2.eq

theorem Template.result_render_of_answersAlike
    (h : ∀ p, parse t.source = .ok p → t.AnswersAlike cs ds p) (v : Value) :
    ((t.render v).run cs).result = ((t.render v).run ds).result := by
  cases hp : parse t.source with
  | error e =>
    obtain ⟨f, hf⟩ := exists_standAlone t
    rw [hf, Template.renderWith, hp]
    rfl
  | ok p =>
    obtain ⟨f, hf⟩ := exists_render hp
    rw [hf]
    exact (h p hp).result_renderProgram f t.options.partialLimit (.root v)

/-! Expressions ask nothing, and a tag only for the single name at its head. -/

theorem Render.result_evaluate (scope : Scope) (e : Expression) :
    ((evaluate scope e).run cs).result = ((evaluate scope e).run ds).result := by
  rw [evaluate, result_bind (keeps_evaluate? scope e cs), result_bind (keeps_evaluate? scope e ds)]
  cases e with
  | path path => rfl
  | string s => rfl
  | numeral n => rfl

theorem Render.result_evaluateAll (scope : Scope) (es : List Expression) :
    ((evaluateAll scope es).run cs).result = ((evaluateAll scope es).run ds).result := by
  induction es with
  | nil => rfl
  | cons e rest ih =>
    rw [evaluateAll]
    simp only [result_bind (keeps_evaluate scope e _), result_bind (keeps_evaluateAll scope rest _),
      @result_evaluate cs ds, ih]
    rfl

theorem Render.result_evaluateNamed (scope : Scope) (named : List (String × Expression)) :
    ((evaluateNamed scope named).run cs).result = ((evaluateNamed scope named).run ds).result := by
  induction named with
  | nil => rfl
  | cons first rest ih =>
    obtain ⟨name, e⟩ := first
    rw [evaluateNamed]
    simp only [result_bind (keeps_evaluate scope e _),
      result_bind (keeps_evaluateNamed scope rest _), @result_evaluate cs ds, ih]
    rfl

theorem Renderer.result_tagText (r : Renderer) (scope : Scope) {head : Expression}
    (hname : head.asPath?.bind Path.helperName? = none) (arguments : Arguments) :
    ((r.tagText scope head arguments).run cs).result =
      ((r.tagText scope head arguments).run ds).result := by
  rw [tagText, headHelper?, hname]
  simp only [pure_bind]
  split
  · rw [Render.result_bind (Render.keeps_evaluate? scope head cs),
      Render.result_bind (Render.keeps_evaluate? scope head ds)]
    cases head with
    | path path => rfl
    | string s => rfl
    | numeral n => rfl
  · rfl

/-! Registering under a name. -/

theorem Contexts.sameBut_update (cs : Contexts) (id : ContextId) {name : String}
    {f : ExecutionContext → ExecutionContext}
    (hhelpers : ∀ c other, other ≠ name → (f c).helpers.get? other = c.helpers.get? other)
    (hpartials : ∀ c, (f c).partials = c.partials)
    (hdelegate : ∀ c, (f c).delegate = c.delegate) : cs.SameBut name (cs.update id f) where
  helpers id' other hother := by
    rw [get_update]
    split
    next h => rw [h, hhelpers _ other hother]
    · rfl
  partials id' := by
    rw [get_update]
    split
    next h => rw [h, hpartials]
    · rfl
  delegate id' := by
    rw [get_update]
    split
    next h => rw [h, hdelegate]
    · rfl

theorem Contexts.sameBut_registerHelper (cs : Contexts) (id : ContextId) (name : String)
    (helper : Helper) : cs.SameBut name (cs.update id (·.registerHelper name helper)) := by
  refine cs.sameBut_update id (fun c other hother => ?_) (fun _ => rfl) fun _ => rfl
  rw [ExecutionContext.registerHelper, NameMap.get?_insert, if_neg hother]

theorem Contexts.sameBut_unregisterHelper (cs : Contexts) (id : ContextId) (name : String) :
    cs.SameBut name (cs.update id (·.unregisterHelper name)) := by
  refine cs.sameBut_update id (fun c other hother => ?_) (fun _ => rfl) fun _ => rfl
  rw [ExecutionContext.unregisterHelper, NameMap.get?_erase, if_neg hother]

namespace Contexts.SameBut

variable {name : String} (h : cs.SameBut name ds)
include h

theorem result_helper? {other : String} (hother : other ≠ name) :
    ((t.helper? other).run cs).result = ((t.helper? other).run ds).result := by
  rw [t.run_helper?, t.run_helper?]
  simp only [Template.first?, ExecutionContext.helper?, h.helpers _ other hother, h.delegate]

theorem result_partial? (other : String) :
    ((t.partial? other).run cs).result = ((t.partial? other).run ds).result := by
  rw [t.run_partial?, t.run_partial?]
  simp only [Template.first?, ExecutionContext.partial?, h.partials, h.delegate]

theorem textsAlike : TextsAlike t cs ds where
  localize x := by
    rw [t.run_localize, t.run_localize]
    simp only [Template.first?, ExecutionContext.translation?, h.delegate]
  escape x := by
    rw [t.run_escape, t.run_escape]
    simp only [Template.first?, ExecutionContext.escaped?, h.delegate]

/-- A program that does not call `name` gets the answers that it got. -/
theorem answersAlike (hbuiltin : ∀ other, t.Calls cs p other → t.SharesBuiltin cs cs other)
    (hname : ¬ t.Calls cs p name) : t.AnswersAlike cs ds p where
  called other hother := by
    have hne : other ≠ name := fun heq => hname (heq ▸ hother)
    exact ⟨h.result_helper? hne, (hbuiltin other hother).isBuiltin⟩
  inserted other _ := h.result_partial? other
  texts := h.textsAlike

end Contexts.SameBut

/-- Registrations reach only the names that a template spells. In two states of all contexts that
answer alike what a template asks, it renders alike, and so does a program in any scope. A helper
that is registered or removed under a name changes only tags and blocks that have the single name as
their head: no program that calls no helper of the name, no expression, and no text of a tag with
another head. -/
theorem registrations_reach_spelled_names :
    (∀ (t : Template) cs ds, (∀ p, parse t.source = .ok p → t.AnswersAlike cs ds p) →
      ∀ v, ((t.render v).run cs).result = ((t.render v).run ds).result) ∧
    (∀ (t : Template) cs ds p, t.AnswersAlike cs ds p → ∀ f room scope,
      ((renderProgram t f room p scope).run cs).result =
        ((renderProgram t f room p scope).run ds).result) ∧
    (∀ (t : Template) cs p name, (∀ other, t.Calls cs p other → t.SharesBuiltin cs cs other) →
      ¬ t.Calls cs p name → ∀ id helper,
      ∀ ds ∈ [cs.update id (·.registerHelper name helper), cs.update id (·.unregisterHelper name)],
        t.AnswersAlike cs ds p ∧ ∀ f room scope,
          ((renderProgram t f room p scope).run cs).result =
            ((renderProgram t f room p scope).run ds).result) ∧
    (∀ (path : Path) name, path.helperName? = some name ↔ path.steps = [.field name]) ∧
    (∀ cs ds (r : Renderer) scope head arguments, head.asPath?.bind Path.helperName? = none →
      ((r.tagText scope head arguments).run cs).result =
        ((r.tagText scope head arguments).run ds).result) ∧
    (∀ cs ds scope es, ((Render.evaluateAll scope es).run cs).result =
      ((Render.evaluateAll scope es).run ds).result) ∧
    (∀ cs ds scope named, ((Render.evaluateNamed scope named).run cs).result =
      ((Render.evaluateNamed scope named).run ds).result) := by
  refine ⟨fun t cs ds h v => Template.result_render_of_answersAlike h v,
    fun t cs ds p h => h.result_renderProgram, ?_, fun path name => Path.helperName?_eq_some,
    fun cs ds r scope head arguments hname => r.result_tagText scope hname arguments,
    fun cs ds scope es => Render.result_evaluateAll scope es,
    fun cs ds scope named => Render.result_evaluateNamed scope named⟩
  intro t cs p name hbuiltin hname id helper ds hds
  have hsame : cs.SameBut name ds := by
    simp only [List.mem_cons, List.not_mem_nil, or_false] at hds
    rcases hds with rfl | rfl
    · exact cs.sameBut_registerHelper id name helper
    · exact cs.sameBut_unregisterHelper id name
  have halike : t.AnswersAlike cs ds p := hsame.answersAlike hbuiltin hname
  exact ⟨halike, halike.result_renderProgram⟩

end

open Written in
/-- A helper named as a field that a template reads by a path of two steps: the field is shown
still. -/
theorem registrations_reach_spelled_names_field :
    let t : Template :=
      ⟨"\x7b\x7b#[with] [a]\x7d\x7d\x7b\x7bthis/[n]\x7d\x7d\x7b\x7b/[with]\x7d\x7d", {},
        .global, none⟩
    let v : Value := .object [("a", .object [("n", .string "field")])]
    let cs := Contexts.empty.update .global (·.registerHelper "n" fun _ => .text "helper")
    ((t.render v).run cs).result = .ok "field" := by
  intro t v cs
  let head : Path := ⟨[.field "with"], "[with]"⟩
  let a : Path := ⟨[.field "a"], "[a]"⟩
  let n : Path := ⟨[.this, .field "n"], "this/[n]"⟩
  let p : Program := [.block head ⟨[.path a], {}⟩ [.tag (.path n) {} true] []]
  have hp : parse t.source = .ok p := by
    have hhead : WritablePath head := writablePath_plain rfl (by decide)
    have ha : WritablePath a := writablePath_plain rfl (by decide)
    have hn : WritablePath n :=
      ⟨by simp [n], ⟨0, none, [.this, .field "n"], rfl, by decide⟩, by decide, by decide⟩
    have hw : Writable p :=
      ⟨.block hhead (writableArguments_single ha) (.tag hn writableArguments_nil .nil) .nil .nil,
        by decide⟩
    have hspace : Gap [' '] := ⟨by simp, by simp [Blank, isSpace]⟩
    have htext : ProgramText false p _ :=
      .block (.opening (.intro .nil (.positional hspace .nil) .nil))
        (.tag (.escaped (.intro .nil .nil .nil)) .nil) (.closing .nil .nil) .nil
    exact htext.parse hw
  have hcalls : ∀ other, t.Calls .empty p other → other = "with" := by
    rintro other ⟨q, s, d, hq, hs, hname⟩
    obtain rfl := hq.eq_self (by simp [p])
    simp only [p] at hs
    cases hs with
    | here => simpa [Statement.helperName?, Path.helperName?, head, eq_comm] using hname
    | later hs => cases hs
    | inverse hs => cases hs
    | main hs =>
      cases hs with
      | here => simp [Statement.helperName?, Expression.asPath?, Path.helperName?, n] at hname
      | later hs => cases hs
  have hout : ((t.render v).run .empty).result = .ok "field" := by
    obtain ⟨f, hf⟩ := exists_render hp
    rw [hf]
    rfl
  obtain ⟨hrender, -, hregister, -⟩ := registrations_reach_spelled_names
  have hbuiltin : t.OnlyBuiltins .empty := fun _ => rfl
  obtain ⟨halike, -⟩ := hregister t .empty p "n" (fun other _ => hbuiltin.shares other)
    (fun hn => absurd (hcalls "n" hn) (by decide)) .global (fun _ => .text "helper") cs
    (by simp [cs])
  have hsame := hrender t .empty cs (fun q hq => by rw [hp] at hq; cases hq; exact halike) v
  rw [← hsame, hout]

end Stencil
