import Stencil.Proofs.Alike.Program

/-!
Contexts under other identifiers. An application knows a context by reference, so which identifier
it has must not show. Two renderings that meet the same contexts under other identifiers have one
result and the same events, whatever their helpers do, and leave the same contexts behind.
-/
namespace Stencil

/-- A way to give contexts other identifiers. A rendering itself names the global context and those
of the stand-alone templates inside it, so these keep theirs. -/
structure Renaming where
  rel : ContextId → ContextId → Prop
  unique {a b c d : ContextId} : rel a b → rel c d → (a = c ↔ b = d)
  global : rel .global .global
  scratch {level : Nat} : level < Template.standAloneLimit → rel (.scratch level) (.scratch level)

/-- An event but for the context whose delegate was asked. -/
def Event.unplaced : Event → Event
  | .asked _ label hook subject => .asked .global label hook subject
  | .read field => .read field
  | .logged level message => .logged level message
  | .called call => .called call

namespace Renaming

variable {ρ : Renaming} {α β : Type} {cs ds : Contexts}

/-- Every context is the same under its other identifier. -/
def Carries (ρ : Renaming) (cs ds : Contexts) : Prop := ∀ a b, ρ.rel a b → cs.get a = ds.get b

theorem Carries.update (h : ρ.Carries cs ds) {a b : ContextId} (hab : ρ.rel a b)
    (f : ExecutionContext → ExecutionContext) : ρ.Carries (cs.update a f) (ds.update b f) := by
  intro c d hcd
  rw [Contexts.get_update, Contexts.get_update, h a b hab, h c d hcd]
  simp only [ρ.unique hcd hab]

/-- One result, the same events, and the same contexts. -/
structure SameOutcome (ρ : Renaming) (x y : Outcome α) : Prop where
  result : x.result = y.result
  events : x.events.map Event.unplaced = y.events.map Event.unplaced
  contexts : ρ.Carries x.contexts y.contexts

/-- Two renderings that have the same outcome wherever they meet the same contexts. -/
def Mirrors (ρ : Renaming) (m n : Render α) : Prop :=
  ∀ ⦃cs ds⦄, ρ.Carries cs ds → ρ.SameOutcome (m.run cs) (n.run ds)

namespace Mirrors

theorem ofExcept (r : Except RenderError α) : ρ.Mirrors (Render.ofExcept r) (Render.ofExcept r) :=
  fun _ _ h => ⟨rfl, rfl, h⟩

theorem pure (a : α) : ρ.Mirrors (Pure.pure a) (Pure.pure a) := .ofExcept (.ok a)

theorem bind {m n : Render α} {f g : α → Render β} (h : ρ.Mirrors m n)
    (hfg : ∀ a, ρ.Mirrors (f a) (g a)) : ρ.Mirrors (m >>= f) (n >>= g) := by
  intro cs ds hc
  have hfirst := h hc
  cases hm : (m.run cs).result with
  | error e =>
    rw [Render.run_bind_of_error hm, Render.run_bind_of_error (hfirst.result ▸ hm)]
    exact ⟨rfl, hfirst.events, hfirst.contexts⟩
  | ok a =>
    have hsecond := hfg a hfirst.contexts
    rw [Render.run_bind_of_ok hm, Render.run_bind_of_ok (hfirst.result ▸ hm)]
    refine ⟨hsecond.result, ?_, hsecond.contexts⟩
    rw [List.map_append, List.map_append, hfirst.events, hsecond.events]

theorem attempt {m n : Render α} (h : ρ.Mirrors m n) : ρ.Mirrors m.attempt n.attempt :=
  fun _ _ hc => ⟨congrArg Except.ok (h hc).result, (h hc).events, (h hc).contexts⟩

theorem note {e e' : Event} (h : e.unplaced = e'.unplaced) :
    ρ.Mirrors (Render.note e) (Render.note e') :=
  fun _ _ hc => ⟨rfl, congrArg (fun e => [e]) h, hc⟩

theorem context {a b : ContextId} (h : ρ.rel a b) :
    ρ.Mirrors (Render.context a) (Render.context b) :=
  fun _ _ hc => ⟨congrArg Except.ok (hc a b h), rfl, hc⟩

theorem update {a b : ContextId} (h : ρ.rel a b) (f : ExecutionContext → ExecutionContext) :
    ρ.Mirrors (Render.update a f) (Render.update b f) :=
  fun _ _ hc => ⟨rfl, rfl, hc.update h f⟩

theorem reading (r : Reading α) : ρ.Mirrors (Render.reading r) (Render.reading r) :=
  fun _ _ hc => ⟨rfl, rfl, hc⟩

theorem attemptReading (r : Reading α) :
    ρ.Mirrors (Render.attemptReading r) (Render.attemptReading r) :=
  fun _ _ hc => ⟨rfl, rfl, hc⟩

theorem inScratch {m n : Render α} (h : ρ.Mirrors m n) {a b : ContextId} (hrel : ρ.rel a b) :
    ρ.Mirrors (Render.inScratch a m) (Render.inScratch b n) := by
  intro cs ds hc
  have hinner := h (hc.update hrel fun _ => {})
  refine ⟨hinner.result, hinner.events, ?_⟩
  simp only [Render.inScratch, Render.run, Contexts.set, hc _ _ hrel]
  exact hinner.contexts.update hrel _

end Mirrors

/-! What contexts and templates are asked. -/

section
variable {a b : ContextId} (hab : ρ.rel a b)
include hab

theorem mirrors_ask (hook : Hook) (subject : String) (answer : Delegate → Option α) :
    ρ.Mirrors (a.ask hook subject answer) (b.ask hook subject answer) := by
  refine (Mirrors.context hab).bind fun c => ?_
  cases c.delegate with
  | none => exact .pure none
  | some d =>
    have hnote : ρ.Mirrors (Render.note (.asked a d.label hook subject))
        (Render.note (.asked b d.label hook subject)) := .note rfl
    exact hnote.bind fun _ => .pure (answer d)

theorem mirrors_context_helper? (name : String) : ρ.Mirrors (a.helper? name) (b.helper? name) := by
  refine (Mirrors.context hab).bind fun c => ?_
  cases c.helpers.get? name with
  | none => exact mirrors_ask hab .helper name _
  | some helper => exact .pure (some helper)

theorem mirrors_partialFromSource? (name : String) :
    ρ.Mirrors (a.partialFromSource? name) (b.partialFromSource? name) := by
  refine (mirrors_ask hab .partialSource name _).bind fun found => ?_
  cases found with
  | none => exact .pure none
  | some source =>
    dsimp only
    cases Partial.compile source with
    | ok p => exact .pure (some p)
    | error e => exact .ofExcept _

theorem mirrors_context_partial? (name : String) :
    ρ.Mirrors (a.partial? name) (b.partial? name) := by
  refine (Mirrors.context hab).bind fun c => ?_
  cases c.partials.get? name with
  | some p => exact .pure (some p)
  | none =>
    refine (mirrors_ask hab .partialBody name _).bind fun found => ?_
    cases found with
    | some p => exact .pure (some p)
    | none => exact mirrors_partialFromSource? hab name

end

theorem mirrors_firstAnswer {question : ContextId → Render (Option α)}
    (h : ∀ a b, ρ.rel a b → ρ.Mirrors (question a) (question b)) {ids ids' : List ContextId}
    (hids : List.Forall₂ ρ.rel ids ids') :
    ρ.Mirrors (firstAnswer question ids) (firstAnswer question ids') := by
  induction hids with
  | nil => exact .pure none
  | cons hab _ ih =>
    refine (h _ _ hab).bind fun found => ?_
    cases found with
    | some a => exact .pure (some a)
    | none => exact ih

/-- Two templates that differ in how their contexts are identified only. -/
structure Twins (ρ : Renaming) (t t' : Template) : Prop where
  source : t.source = t'.source
  options : t.options = t'.options
  own : ρ.rel t.own t'.own
  shared : Option.Rel ρ.rel t.shared t'.shared

namespace Twins

variable {t t' : Template} (h : ρ.Twins t t')
include h

theorem chain : List.Forall₂ ρ.rel t.chain t'.chain := by
  obtain ⟨-, -, hown, hshared⟩ := h
  rw [Template.chain, Template.chain]
  generalize t.shared = x at hshared ⊢
  generalize t'.shared = y at hshared ⊢
  cases hshared with
  | none => simp [hown, ρ.global]
  | @some a b hab =>
    -- the global context is the shared one of both or of none
    have hglobal : a = .global ↔ b = .global := ρ.unique hab ρ.global
    by_cases ha : a = .global
    · simp [ha, hglobal.mp ha, hown, ρ.global]
    · simp [ha, mt hglobal.mpr ha, hown, hab, ρ.global]

theorem helper? (name : String) : ρ.Mirrors (t.helper? name) (t'.helper? name) := by
  refine (mirrors_firstAnswer (fun _ _ hab => mirrors_context_helper? hab name) h.chain).bind
    fun found => ?_
  cases found with
  | some helper => exact .pure (some helper)
  | none => exact .pure _

theorem partial? (name : String) : ρ.Mirrors (t.partial? name) (t'.partial? name) :=
  mirrors_firstAnswer (fun _ _ hab => mirrors_context_partial? hab name) h.chain

theorem localize (text : String) : ρ.Mirrors (t.localize text) (t'.localize text) :=
  (mirrors_firstAnswer (fun _ _ hab => mirrors_ask hab .translation text _) h.chain).bind
    fun _ => .pure _

theorem escape (raw : String) : ρ.Mirrors (t.escape raw) (t'.escape raw) := by
  rw [Template.escape, Template.escape, h.options]
  exact (mirrors_firstAnswer (fun _ _ hab => mirrors_ask hab .escape raw _) h.chain).bind
    fun _ => .pure _

end Twins

/-! Helpers. -/

/-- Means of two templates that do the same. -/
structure SameMeans (ρ : Renaming) (means means' : Means) : Prop where
  template : ρ.Twins means.template means'.template
  inSection (which : Section) (v : Value) (d : PrivateData) :
    ρ.Mirrors (means.inSection which v d) (means'.inSection which v d)
  standAlone (source : String) (v : Value) :
    ρ.Mirrors (means.standAlone source v) (means'.standAlone source v)

theorem mirrors_perform {means means' : Means} (h : ρ.SameMeans means means') (action : Action) :
    ρ.Mirrors (action.perform means) (action.perform means') := by
  induction action with
  | done outcome => exact .ofExcept outcome
  | render which v d resume ih => exact (h.inSection which v d).attempt.bind fun r => ih r
  | access target key resume ih => exact (Mirrors.attemptReading _).bind fun r => ih r
  | localize text resume ih => exact (h.template.localize text).bind fun r => ih r
  | escape raw resume ih => exact (h.template.escape raw).bind fun r => ih r
  | note event next ih => exact (Mirrors.note rfl).bind fun _ => ih
  | definePartial name source resume ih =>
    rw [Action.perform, Action.perform]
    cases Partial.compile source with
    | ok p => exact (Mirrors.update h.template.own _).bind fun _ => ih (.ok ())
    | error e => exact ih (.error e)
  | defineHelper name helper next ihhelper ih =>
    exact (Mirrors.update h.template.own _).bind fun _ => ih
  | renderText source v resume ih => exact (h.standAlone source v).attempt.bind fun r => ih r

/-! Programs. -/

theorem mirrors_evaluate? (scope : Scope) (e : Expression) :
    ρ.Mirrors (Render.evaluate? scope e) (Render.evaluate? scope e) := by
  cases e with
  | path p => exact .reading _
  | string s => exact .pure _
  | numeral n => exact .pure _

theorem mirrors_evaluate (scope : Scope) (e : Expression) :
    ρ.Mirrors (Render.evaluate scope e) (Render.evaluate scope e) :=
  (mirrors_evaluate? scope e).bind fun _ => .pure _

theorem mirrors_evaluateAll (scope : Scope) (es : List Expression) :
    ρ.Mirrors (Render.evaluateAll scope es) (Render.evaluateAll scope es) := by
  induction es with
  | nil => exact .pure []
  | cons e rest ih => exact (mirrors_evaluate scope e).bind fun _ => ih.bind fun _ => .pure _

theorem mirrors_evaluateNamed (scope : Scope) (named : List (String × Expression)) :
    ρ.Mirrors (Render.evaluateNamed scope named) (Render.evaluateNamed scope named) := by
  induction named with
  | nil => exact .pure []
  | cons entry rest ih =>
    exact (mirrors_evaluate scope entry.2).bind fun _ => ih.bind fun _ => .pure _

/-- Renderers of two templates that do the same. -/
structure SameRenderer (ρ : Renaming) (r r' : Renderer) : Prop where
  template : ρ.Twins r.template r'.template
  standAlone (source : String) (v : Value) :
    ρ.Mirrors (r.standAlone source v) (r'.standAlone source v)
  enter : Option.Rel (fun enter enter' => ∀ p s, ρ.Mirrors (enter p s) (enter' p s)) r.enter?
    r'.enter?

namespace SameRenderer

variable {r r' : Renderer} (h : ρ.SameRenderer r r')
include h

theorem invoke (scope : Scope) (name : String) (helper : Helper) (kind : CallKind)
    (arguments : Arguments) (mainEmpty inverseEmpty : Bool)
    {inSection inSection' : Section → Value → PrivateData → Render String}
    (hsection : ∀ which v d, ρ.Mirrors (inSection which v d) (inSection' which v d)) :
    ρ.Mirrors (r.invoke scope name helper kind arguments mainEmpty inverseEmpty inSection)
      (r'.invoke scope name helper kind arguments mainEmpty inverseEmpty inSection') := by
  refine (mirrors_evaluateAll scope _).bind fun params => ?_
  refine (mirrors_evaluateNamed scope _).bind fun named => ?_
  exact mirrors_perform ⟨h.template, hsection, h.standAlone⟩ _

theorem headHelper? (path? : Option Path) :
    ρ.Mirrors (r.headHelper? path?) (r'.headHelper? path?) := by
  rw [Renderer.headHelper?, Renderer.headHelper?]
  split
  · exact .pure none
  · exact (h.template.helper? _).bind fun _ => .pure _

theorem tag (scope : Scope) (head : Expression) (arguments : Arguments) (escaped : Bool) :
    ρ.Mirrors (r.tag scope head arguments escaped) (r'.tag scope head arguments escaped) := by
  refine ((h.headHelper? _).bind fun found => ?_).bind fun text => ?_
  · cases found with
    | some entry => exact h.invoke scope _ _ _ _ _ _ fun _ _ _ => .pure ""
    | none =>
      dsimp only
      split
      · exact (mirrors_evaluate? scope head).bind fun _ => .pure _
      · exact .ofExcept _
  · split
    · exact h.template.escape text
    · exact .pure text

theorem insertion (scope : Scope) (name : String) (context : Option Expression)
    (named : NamedParams) :
    ρ.Mirrors (r.insertion scope name context named) (r'.insertion scope name context named) := by
  refine (h.template.partial? name).bind fun found => ?_
  cases found with
  | none => exact .ofExcept _
  | some p =>
    have henter := h.enter
    dsimp only
    rw [h.template.options]
    generalize r.enter? = x at henter ⊢
    generalize r'.enter? = y at henter ⊢
    cases henter with
    | none => exact .ofExcept _
    | some hbody =>
      refine (mirrors_evaluateNamed scope _).bind fun entries => ?_
      cases context with
      | none => exact hbody _ _
      | some e => exact (mirrors_evaluate scope e).bind fun v => hbody _ _

theorem program (scope : Scope) (p : Program) :
    ρ.Mirrors (r.program scope p) (r'.program scope p) := by
  induction p using Program.induct generalizing scope with
  | nil => exact .pure ""
  | cons s rest ihs ihrest =>
    refine Mirrors.bind ?_ fun _ => (ihrest scope).bind fun _ => .pure _
    cases s with
    | raw text => exact .pure text
    | comment text => exact .pure ""
    | tag head arguments escaped => exact h.tag scope head arguments escaped
    | insertion name context named => exact h.insertion scope name context named
    | block path arguments main inverse =>
      obtain ⟨ihmain, ihinverse⟩ := ihs path arguments main inverse rfl
      refine (h.headHelper? (some path)).bind fun found => ?_
      cases found with
      | none => exact .ofExcept _
      | some entry =>
        refine h.invoke scope _ _ _ _ _ _ fun which v d => ?_
        cases which with
        | main => exact ihmain _
        | inverse => exact ihinverse _

end SameRenderer

/-! Templates. -/

section
variable {t t' : Template} {f f' : String → Value → Render String}

theorem mirrors_renderProgram (h : ρ.Twins t t')
    (hf : ∀ source v, ρ.Mirrors (f source v) (f' source v)) (room : Nat) (p : Program)
    (scope : Scope) :
    ρ.Mirrors (renderProgram t f room p scope) (renderProgram t' f' room p scope) := by
  induction room generalizing p scope with
  | zero => exact SameRenderer.program ⟨h, hf, .none⟩ scope p
  | succ room ih => exact SameRenderer.program ⟨h, hf, .some ih⟩ scope p

theorem mirrors_renderWith (h : ρ.Twins t t')
    (hf : ∀ source v, ρ.Mirrors (f source v) (f' source v)) (v : Value) :
    ρ.Mirrors (t.renderWith f v) (t'.renderWith f' v) := by
  rw [Template.renderWith, Template.renderWith, h.source, h.options]
  split
  · exact mirrors_renderProgram h hf _ _ _
  · exact .ofExcept _

theorem mirrors_renderLevel (h : ρ.Twins t t') {level : Nat}
    (hlevel : level ≤ Template.standAloneLimit) (v : Value) :
    ρ.Mirrors (Template.renderLevel level t v) (Template.renderLevel level t' v) := by
  induction level generalizing t t' v with
  | zero => exact mirrors_renderWith h (fun _ _ => .ofExcept _) v
  | succ level ih =>
    have hscratch : ρ.rel (.scratch level) (.scratch level) := ρ.scratch hlevel
    refine mirrors_renderWith h (fun source w => ?_) v
    exact (ih ⟨rfl, rfl, hscratch, .none⟩ (Nat.le_of_succ_le hlevel) w).inScratch hscratch

/-- A rendering does not depend on how contexts are identified. -/
theorem mirrors_render (h : ρ.Twins t t') (v : Value) : ρ.Mirrors (t.render v) (t'.render v) :=
  mirrors_renderLevel h le_rfl v

end

end Renaming
end Stencil
