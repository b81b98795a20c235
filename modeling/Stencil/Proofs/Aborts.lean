import Stencil.Proofs.PartialDepth
import Stencil.Proofs.Preservation
import Mathlib.Data.List.Infix

/-!
Errors that end a rendering. A statement that fails ends the program that it stands in, and with it
the statement that had this program rendered, unless a helper takes the error of its section for
something else. Nothing that comes later is rendered.
-/
namespace Stencil

/-- An outcome that is an error, `last` being the last events before it. -/
structure Outcome.Aborts {α : Type} (o : Outcome α) (e : RenderError) (ds : Contexts)
    (last : List Event) : Prop where
  result : o.result = .error e
  contexts : o.contexts = ds
  events : last <:+ o.events

section
variable {α β : Type} {cs ds : Contexts} {e : RenderError} {last : List Event}

theorem Render.aborts_bind_of_ok {m : Render α} {f : α → Render β} {a : α}
    (ha : (m.run cs).result = .ok a) (h : ((f a).run (m.run cs).contexts).Aborts e ds last) :
    ((m >>= f).run cs).Aborts e ds last := by
  rw [run_bind_of_ok ha]
  exact ⟨h.result, h.contexts, h.events.trans (List.suffix_append _ _)⟩

/-- A first part that leaves the contexts as they are. -/
theorem Render.aborts_bind_of_keeps {m : Render α} {f : α → Render β} {a : α} (hm : m.Keeps cs)
    (ha : (m.run cs).result = .ok a) (h : ((f a).run cs).Aborts e ds last) :
    ((m >>= f).run cs).Aborts e ds last :=
  aborts_bind_of_ok ha (by rwa [hm.contexts])

end

/-! Helpers. -/

/-- An action that ends with the error of a section where one fails. -/
inductive Action.PassesOn : Action → Prop
  | done (outcome) : PassesOn (.done outcome)
  | render {which v d resume} : (∀ text, PassesOn (resume (.ok text))) →
      (∀ e, resume (.error e) = .fail e) → PassesOn (.render which v d resume)
  | access {target key resume} : (∀ r, PassesOn (resume r)) → PassesOn (.access target key resume)
  | localize {text resume} : (∀ r, PassesOn (resume r)) → PassesOn (.localize text resume)
  | escape {raw resume} : (∀ r, PassesOn (resume r)) → PassesOn (.escape raw resume)
  | note {event next} : PassesOn next → PassesOn (.note event next)
  | definePartial {name source resume} : (∀ r, PassesOn (resume r)) →
      PassesOn (.definePartial name source resume)
  | defineHelper {name helper next} : PassesOn next → PassesOn (.defineHelper name helper next)
  | renderText {source v resume} : (∀ r, PassesOn (resume r)) →
      PassesOn (.renderText source v resume)

namespace Action

variable {means : Means} {action : Action} {cs ds : Contexts}

theorem passesOn_of_request {α : Type} {m : Render α} {resume : α → Action} {next : Action}
    (h : ∀ a, (resume a).PassesOn)
    (hnext : ((m >>= fun a => pure (resume a)).run cs).result = .ok next) : next.PassesOn := by
  cases hr : (m.run cs).result with
  | error e => rw [Render.run_bind_of_error hr] at hnext; cases hnext
  | ok a =>
    rw [Render.run_bind_of_ok hr] at hnext
    cases hnext
    exact h a

/-- One step: what goes on after a request passes errors on as well. -/
theorem PassesOn.step (h : action.PassesOn) {next : Action}
    (hnext : ((action.step means).run cs).result = .ok next) : next.PassesOn := by
  cases h with
  | done outcome => cases hnext; exact .done outcome
  | @render which v d resume hok herror =>
    refine passesOn_of_request (fun r => ?_) hnext
    cases r with
    | ok text => exact hok text
    | error e => rw [herror e]; exact .done _
  | access h => exact passesOn_of_request h hnext
  | localize h => exact passesOn_of_request h hnext
  | escape h => exact passesOn_of_request h hnext
  | note h => exact passesOn_of_request (fun _ => h) hnext
  | @definePartial name source resume h =>
    rw [Action.step] at hnext
    split at hnext
    · cases hnext
      exact h _
    · cases hnext
      exact h _
  | defineHelper h => exact passesOn_of_request (fun _ => h) hnext
  | renderText h => exact passesOn_of_request h hnext

/-- A whole run: an action that passes errors on ends as a section that it has rendered and that
fails. -/
theorem PassesOn.aborts (h : action.PassesOn) {run : SectionRun} (hrun : action.Runs means cs run)
    {e : RenderError} {last : List Event}
    (hsection : ((means.inSection run.which run.value run.data).run run.contexts).Aborts e ds last) :
    ((action.perform means).run cs).Aborts e ds last := by
  induction hrun with
  | @here which v d resume cs =>
    cases h with
    | render _ herror =>
      have hattempt : ((means.inSection which v d).attempt.run cs).result = .ok (.error e) :=
        congrArg Except.ok hsection.result
      rw [perform, Render.run_bind_of_ok hattempt, herror]
      refine ⟨rfl, hsection.contexts, ?_⟩
      change last <:+ _ ++ []
      rw [List.append_nil]
      exact hsection.events
  | @later action cs next run hnext _ ih =>
    rw [perform_eq_step]
    exact Render.aborts_bind_of_ok hnext (ih (h.step hnext) hsection)

theorem passesOn_renderThen {which : Section} {v : Value} {d : PrivateData} {next : String → Action}
    (h : ∀ s, (next s).PassesOn) : (renderThen which v d next).PassesOn :=
  .render h fun _ => rfl

theorem passesOn_branch (call : Call) (which : Section) : (branch call which).PassesOn :=
  passesOn_renderThen fun _ => .done _

theorem passesOn_renderEach (which : Section) (scopes : List (Value × PrivateData))
    (before : String) : (renderEach which scopes before).PassesOn := by
  induction scopes generalizing before with
  | nil => exact .done _
  | cons scope rest ih => exact passesOn_renderThen fun s => ih (before ++ s)

end Action

theorem Builtin.passesOn_each (call : Call) : (eachHelper call).PassesOn := by
  simp only [eachHelper]
  split
  · exact Action.passesOn_renderEach _ _ _
  · split
    · exact Action.passesOn_renderEach _ _ _
    · exact Action.passesOn_branch _ _

theorem Builtin.passesOn_with (call : Call) : (withHelper call).PassesOn := by
  simp only [withHelper]
  split
  · exact Action.passesOn_renderThen fun _ => .done _
  · exact Action.passesOn_branch _ _

theorem Builtin.passesOn_lookup (call : Call) : (lookupHelper call).PassesOn := by
  simp only [lookupHelper]
  split
  · refine .access fun r => ?_
    cases r <;> exact .done _
  · exact .done _

/-- The helpers of every template pass errors on. -/
theorem passesOn_builtin {name : String} {helper : Helper} (h : builtin? name = some helper)
    (call : Call) : (helper call).PassesOn := by
  cases name, helper, h using builtin?_cases with
  | each => exact Builtin.passesOn_each call
  | ifHelper => exact Action.passesOn_branch _ _
  | localize => exact .localize fun _ => .done _
  | log => exact .note (.done _)
  | lookup => exact Builtin.passesOn_lookup call
  | unlessHelper => exact Action.passesOn_branch _ _
  | withHelper => exact Builtin.passesOn_with call

/-! Frames. -/

/-- A statement whose helper, if it is a block, passes errors on. -/
def Statement.PassesOn (t : Template) (cs : Contexts) : Statement → Prop
  | .block path _ _ _ => ∀ name ∈ path.helperName?, ∀ helper,
      ((t.helper? name).run cs).result = .ok (some helper) → ∀ call, (helper call).PassesOn
  | .raw _ | .comment _ | .tag .. | .insertion .. => True

section
variable (t : Template) (f : String → Value → Render String)

/-- How the rendering of a frame goes. -/
def Frame.outcome (g : Frame) : Outcome String :=
  ((t.rendererIn f g.around).program g.scope g.program).run g.contexts

/-- A frame that opens another and ends with the error of that, if it fails. -/
inductive Frame.Relays : Frame → Frame → Prop
  | statement {n before x rest s cs text ds events g} :
      ((t.rendererIn f n).program s before).run cs = ⟨.ok text, ds, events⟩ →
      x.Opens t f n s ds g → x.PassesOn t ds → Relays ⟨n, before ++ x :: rest, s, cs⟩ g

end

section
variable {t : Template} {f : String → Value → Render String} {n : Nat} {s : Scope}
  {cs ds es : Contexts} {x : Statement} {e : RenderError} {last : List Event}

/-- What follows a statement that fails is not rendered. -/
theorem Renderer.run_program_of_error (r : Renderer) {before : Program} (rest : Program)
    {text : String} {events : List Event}
    (hbefore : (r.program s before).run cs = ⟨.ok text, ds, events⟩)
    (hx : (r.statement s x).run ds = ⟨.error e, es, last⟩) :
    (r.program s (before ++ x :: rest)).run cs = ⟨.error e, es, events ++ last⟩ := by
  have hrest : (((r.statement s x).append (r.program s rest)).run ds) = ⟨.error e, es, last⟩ := by
    rw [Render.append, Render.run_bind_of_error (by rw [hx]), hx]
  rw [r.program_append, r.program_cons, Render.append, Render.run_bind_of_ok (by rw [hbefore]),
    hbefore, Render.run_bind_of_error (by rw [hrest]), hrest]

/-- A frame ends as the first statement of its program that fails. -/
theorem Renderer.aborts_program (r : Renderer) {before : Program} (rest : Program) {text : String}
    {events : List Event} (hbefore : (r.program s before).run cs = ⟨.ok text, ds, events⟩)
    (hx : ((r.statement s x).run ds).Aborts e es last) :
    ((r.program s (before ++ x :: rest)).run cs).Aborts e es last := by
  have hx' : (r.statement s x).run ds = ⟨.error e, es, ((r.statement s x).run ds).events⟩ := by
    rw [← hx.result, ← hx.contexts]
  rw [r.run_program_of_error rest hbefore hx']
  exact ⟨rfl, rfl, hx.events.trans (List.suffix_append _ _)⟩

theorem Renderer.result_headHelper?_of_ok (r : Renderer) {path : Path} {name : String}
    {helper : Helper} (hname : path.helperName? = some name)
    (hhelper : ((r.template.helper? name).run cs).result = .ok (some helper)) :
    ((r.headHelper? (some path)).run cs).result = .ok (some (name, helper)) := by
  rw [headHelper?, Option.bind_some, hname]
  dsimp only
  rw [Render.run_bind_of_ok hhelper]
  rfl

/-- A statement ends as a frame that it opens and that fails. -/
theorem Statement.Opens.aborts {g : Frame} (hg : x.Opens t f n s cs g) (hx : x.PassesOn t cs)
    (h : (g.outcome t f).Aborts e ds last) :
    (((t.rendererIn f n).statement s x).run cs).Aborts e ds last := by
  cases hg with
  | tag => cases h.result
  | @block path arguments main inverse run hcall =>
    obtain @⟨name, helper, params, named, _, hname, hhelper, hparams, hnamed, hrun⟩ := hcall
    have hhead : (((t.rendererIn f n).headHelper? (some path)).run cs).result =
        .ok (some (name, helper)) :=
      Renderer.result_headHelper?_of_ok _ hname (by rwa [t.rendererIn_template])
    have hpasses := hx name hname helper hhelper (s.blockCall name params named main inverse)
    rw [t.statement_block]
    refine Render.aborts_bind_of_keeps (Renderer.keeps_headHelper? _ _ _) hhead ?_
    refine Render.aborts_bind_of_keeps (Render.keeps_evaluateAll _ _ _) hparams ?_
    refine Render.aborts_bind_of_keeps (Render.keeps_evaluateNamed _ _ _) hnamed ?_
    exact hpasses.aborts hrun h
  | @body name named entries b hlt hpartial hentries =>
    rw [Renderer.statement, t.rendererIn_of_lt hlt, Renderer.insertion]
    refine Render.aborts_bind_of_keeps (Template.keeps_partial? _ _) hpartial ?_
    exact Render.aborts_bind_of_keeps (Render.keeps_evaluateNamed _ _ _) hentries h
  | @bodyFor name expr v named entries b hlt hpartial hentries hv =>
    rw [Renderer.statement, t.rendererIn_of_lt hlt, Renderer.insertion]
    refine Render.aborts_bind_of_keeps (Template.keeps_partial? _ _) hpartial ?_
    refine Render.aborts_bind_of_keeps (Render.keeps_evaluateNamed _ _ _) hentries ?_
    exact Render.aborts_bind_of_keeps (Render.keeps_evaluate _ _ _) hv h

/-- One step: a frame ends as one that it opens. -/
theorem Frame.Relays.aborts {g h : Frame} (hgh : g.Relays t f h)
    (hh : (h.outcome t f).Aborts e ds last) : (g.outcome t f).Aborts e ds last := by
  cases hgh with
  | statement hbefore hopens hx =>
    exact Renderer.aborts_program _ _ hbefore (hopens.aborts hx hh)

/-- A whole run: so do the frames around it. -/
theorem Frame.aborts_of_reached {g h : Frame} (hgh : Relation.ReflTransGen (Frame.Relays t f) g h)
    (hh : (h.outcome t f).Aborts e ds last) : (g.outcome t f).Aborts e ds last := by
  induction hgh with
  | refl => exact hh
  | tail _ hrelays ih => exact ih (hrelays.aborts hh)

end

end Stencil
