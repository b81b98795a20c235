import Stencil.Proofs.Aborts

/-!
Renderings frame by frame. A frame is rendered in one go, but for the frames that it opens: it does
not matter how those are rendered as long as it is right for them. So the rendering is a recursion
from frame to frame, and one that breaks it off somewhere, with whatever outcome, is still the same
rendering as long as no frame is reached there.
-/
namespace Stencil

section
variable {α β : Type} {cs : Contexts}

theorem Render.run_bind_congr {m m' : Render α} {f g : α → Render β} (hm : m.run cs = m'.run cs)
    (h : ∀ a, (m'.run cs).result = .ok a →
      (f a).run (m'.run cs).contexts = (g a).run (m'.run cs).contexts) :
    (m >>= f).run cs = (m' >>= g).run cs := by
  cases hr : (m'.run cs).result with
  | error e => rw [run_bind_of_error (hm ▸ hr), run_bind_of_error hr, hm]
  | ok a => rw [run_bind_of_ok (hm ▸ hr), run_bind_of_ok hr, hm, h a hr]

theorem Render.run_bind_congr_of_keeps {m : Render α} (hm : m.Keeps cs) {f g : α → Render β}
    (h : ∀ a, (m.run cs).result = .ok a → (f a).run cs = (g a).run cs) :
    (m >>= f).run cs = (m >>= g).run cs :=
  run_bind_congr rfl fun a ha => by rw [hm.contexts, h a ha]

end

/-! Actions. -/

namespace Action

variable {t : Template} {f : String → Value → Render String}
  {other inSection : Section → Value → PrivateData → Render String}

/-- A section that is rendered alike in two ways. -/
def SectionRun.Same (run : SectionRun)
    (other inSection : Section → Value → PrivateData → Render String) : Prop :=
  (other run.which run.value run.data).run run.contexts =
    (inSection run.which run.value run.data).run run.contexts

theorem Runs.of_request {α : Type} {means : Means} {m : Render α} {resume : α → Action}
    {action : Action} {cs : Contexts} {a : α} {run : SectionRun}
    (hstep : action.step means = m >>= fun a => pure (resume a)) (ha : (m.run cs).result = .ok a)
    (hrun : (resume a).Runs means (m.run cs).contexts run) : action.Runs means cs run := by
  have hnext : ((action.step means).run cs).result = .ok (resume a) := by
    rw [hstep, Render.run_bind_of_ok ha]
    rfl
  refine .later hnext ?_
  rw [hstep, Render.run_bind_of_ok ha]
  exact hrun

/-- An action only depends on the sections that it has rendered. -/
theorem run_perform_congr (action : Action) {cs : Contexts}
    (h : ∀ run, action.Runs ⟨t, inSection, f⟩ cs run → run.Same other inSection) :
    (action.perform ⟨t, other, f⟩).run cs = (action.perform ⟨t, inSection, f⟩).run cs := by
  induction action generalizing cs with
  | done outcome => rfl
  | render which v d resume ih =>
    have hsection : (other which v d).run cs = (inSection which v d).run cs := h _ .here
    have hattempt : (other which v d).attempt.run cs = (inSection which v d).attempt.run cs :=
      congrArg (fun o => { o with result := .ok o.result }) hsection
    refine Render.run_bind_congr hattempt fun r hr => ?_
    exact ih r fun run hrun => h run (.of_request rfl hr hrun)
  | access target key resume ih =>
    exact Render.run_bind_congr rfl fun r hr => ih r fun run hrun => h run (.of_request rfl hr hrun)
  | localize text resume ih =>
    exact Render.run_bind_congr rfl fun r hr => ih r fun run hrun => h run (.of_request rfl hr hrun)
  | escape raw resume ih =>
    exact Render.run_bind_congr rfl fun r hr => ih r fun run hrun => h run (.of_request rfl hr hrun)
  | note event next ih =>
    exact Render.run_bind_congr rfl fun r hr => ih fun run hrun => h run (.of_request rfl hr hrun)
  | definePartial name source resume ih =>
    rw [perform_eq_step, perform_eq_step]
    refine Render.run_bind_congr rfl fun next hnext => ?_
    have hruns (run) (hrun : next.Runs ⟨t, inSection, f⟩ _ run) := h run (.later hnext hrun)
    rw [step] at hnext
    split at hnext
    · cases hnext
      exact ih _ hruns
    · cases hnext
      exact ih _ hruns
  | defineHelper name helper next _ ih =>
    exact Render.run_bind_congr rfl fun r hr => ih fun run hrun => h run (.of_request rfl hr hrun)
  | renderText source v resume ih =>
    exact Render.run_bind_congr rfl fun r hr => ih r fun run hrun => h run (.of_request rfl hr hrun)

end Action

/-! Statements and programs. -/

section
variable (t : Template) (f : String → Value → Render String) (inner : Frame → Outcome String)

/-- Has `inner` render a program in a scope inside the bodies of `n` partials. -/
def Frame.ask (n : Nat) (p : Program) (s : Scope) : Render String := fun cs => inner ⟨n, p, s, cs⟩

/-- The renderer of statements inside the bodies of `n` partials that has `inner` render the bodies
of further ones. -/
def Template.rendererOver (n : Nat) : Renderer :=
  ⟨t, f, if n < t.options.partialLimit then some (Frame.ask inner (n + 1)) else none⟩

/-- The text of a tag before escaping, where `inner` renders its sections. -/
def Template.tagTextOver (n : Nat) (s : Scope) (head : Expression) (arguments : Arguments) :
    Render String := do
  match ← (t.rendererOver f inner n).headHelper? head.asPath? with
  | some (name, helper) =>
    (t.rendererOver f inner n).invoke s name helper .expression arguments true true fun _ v d =>
      Frame.ask inner n [] (s.child v d)
  | none =>
    if arguments.isEmpty then return (← Render.evaluate? s head).elim "" Value.text
    else Render.fail (.missingHelper head.source)

/-- One statement in a scope inside the bodies of `n` partials, where `inner` renders the sections
of tags and blocks and the bodies of partials. -/
def Template.statementOver (n : Nat) (s : Scope) : Statement → Render String
  | .raw text => return text
  | .comment _ => return ""
  | .tag head arguments escaped => do
    let text ← t.tagTextOver f inner n s head arguments
    if escaped then t.escape text else return text
  | .insertion name context named => (t.rendererOver f inner n).insertion s name context named
  | .block path arguments main inverse => do
    match ← (t.rendererOver f inner n).headHelper? (some path) with
    | some (name, helper) =>
      (t.rendererOver f inner n).invoke s name helper .block arguments main.isEmpty inverse.isEmpty
        fun which v d => Frame.ask inner n (which.of main inverse) (s.child v d)
    | none => Render.fail (.missingHelper path.source)

/-- The statements of a program, in order. -/
def Template.programOver (n : Nat) (s : Scope) : Program → Render String
  | [] => return ""
  | x :: rest => (t.statementOver f inner n s x).append (programOver n s rest)

/-- How the rendering of a frame goes where `inner` renders the frames that it opens, which is all
that is rendered in other scopes. -/
def Frame.expand (g : Frame) : Outcome String :=
  (t.programOver f inner g.around g.scope g.program).run g.contexts

end

section
variable {t : Template} {f : String → Value → Render String} {inner : Frame → Outcome String}
  {n : Nat} {s : Scope} {cs : Contexts} {x : Statement}

/-- A call only depends on the sections that it has rendered. -/
theorem Renderer.run_invoke_congr {r : Renderer} {name : String} {helper : Helper}
    {kind : CallKind} {arguments : Arguments} {mainEmpty inverseEmpty : Bool}
    {other : Section → Value → PrivateData → Render String} {means : Means}
    (ht : r.template = means.template) (hf : r.standAlone = means.standAlone)
    (h : ∀ params named, ((Render.evaluateAll s arguments.positional).run cs).result = .ok params →
      ((Render.evaluateNamed s arguments.named.entries).run cs).result = .ok named → ∀ run,
        (helper ⟨name, kind, s.value, s.data, params, named, mainEmpty, inverseEmpty⟩).Runs means cs
          run → run.Same other means.inSection) :
    (r.invoke s name helper kind arguments mainEmpty inverseEmpty other).run cs =
      (do
        let params ← Render.evaluateAll s arguments.positional
        let named ← Render.evaluateNamed s arguments.named.entries
        let call : Call := ⟨name, kind, s.value, s.data, params, named, mainEmpty, inverseEmpty⟩
        (helper call).perform means : Render String).run cs := by
  rw [invoke, ht, hf]
  refine Render.run_bind_congr_of_keeps (Render.keeps_evaluateAll _ _ _) fun params hparams => ?_
  refine Render.run_bind_congr_of_keeps (Render.keeps_evaluateNamed _ _ _) fun named hnamed => ?_
  exact Action.run_perform_congr _ (h params named hparams hnamed)

theorem Template.headHelper?_over (path? : Option Path) :
    (t.rendererOver f inner n).headHelper? path? = (t.rendererIn f n).headHelper? path? := by
  rw [Renderer.headHelper?, Renderer.headHelper?, rendererIn_template]
  rfl

theorem Template.run_tagTextOver {head : Expression} {arguments : Arguments}
    (h : ∀ run, t.CallRuns f n s cs head.asPath? arguments s.tagCall [] [] run →
      inner ⟨n, [], s.child run.value run.data, run.contexts⟩ = ⟨.ok "", run.contexts, []⟩) :
    (t.tagTextOver f inner n s head arguments).run cs =
      ((t.rendererIn f n).tagText s head arguments).run cs := by
  rw [tagTextOver, Renderer.tagText, headHelper?_over]
  refine Render.run_bind_congr_of_keeps (Renderer.keeps_headHelper? _ _ _) fun found hfound => ?_
  cases found with
  | none => rfl
  | some entry =>
    obtain ⟨hname, hhelper⟩ := Renderer.of_headHelper? hfound
    rw [t.rendererIn_template] at hhelper
    simp only [Renderer.invoke, rendererIn_template, rendererIn_standAlone]
    rw [t.tagMeans_eq f n s]
    refine Renderer.run_invoke_congr rfl rfl fun params named hparams hnamed run hrun => ?_
    have hinner := h run (.intro hname hhelper hparams hnamed hrun)
    obtain ⟨which, v, d, ds⟩ := run
    cases which with
    | main => exact hinner
    | inverse => exact hinner

theorem Template.run_insertion_over {name : String} {context : Option Expression}
    {named : NamedParams}
    (h : ∀ g, (Statement.insertion name context named).Opens t f n s cs g →
      inner g = g.outcome t f) :
    ((t.rendererOver f inner n).insertion s name context named).run cs =
      ((t.rendererIn f n).insertion s name context named).run cs := by
  by_cases hn : n < t.options.partialLimit
  · rw [t.rendererIn_of_lt hn, rendererOver, if_pos hn, Renderer.insertion, Renderer.insertion]
    refine Render.run_bind_congr_of_keeps (t.keeps_partial? name) fun found hfound => ?_
    cases found with
    | none => rfl
    | some b =>
      refine Render.run_bind_congr_of_keeps (Render.keeps_evaluateNamed _ _ _) ?_
      intro entries hentries
      cases context with
      | none => exact h _ (.body hn hfound hentries)
      | some e =>
        refine Render.run_bind_congr_of_keeps (Render.keeps_evaluate _ _ _) fun v hv => ?_
        exact h _ (.bodyFor hn hfound hentries hv)
  · rw [t.rendererIn_of_le (Nat.not_lt.mp hn), rendererOver, if_neg hn]

/-- A statement only depends on the frames that it opens. -/
theorem Statement.run_over (h : ∀ g, x.Opens t f n s cs g → inner g = g.outcome t f) :
    (t.statementOver f inner n s x).run cs = ((t.rendererIn f n).statement s x).run cs := by
  have ht := t.rendererIn_template f n
  cases x with
  | raw text => rfl
  | comment text => rfl
  | tag head arguments escaped =>
    refine Render.run_bind_congr ?_ fun text _ => ?_
    · exact t.run_tagTextOver fun run hrun => h _ (.tag hrun)
    · rw [ht]
  | insertion name context named => exact t.run_insertion_over h
  | block path arguments main inverse =>
    rw [t.statement_block, Template.statementOver, t.headHelper?_over]
    refine Render.run_bind_congr_of_keeps (Renderer.keeps_headHelper? _ _ _) fun found hfound => ?_
    cases found with
    | none => rfl
    | some entry =>
      obtain ⟨hname, hhelper⟩ := Renderer.of_headHelper? hfound
      rw [ht] at hhelper
      refine Renderer.run_invoke_congr rfl rfl fun params named hparams hnamed run hrun => ?_
      exact h _ (.block (.intro hname hhelper hparams hnamed hrun))

theorem Renderer.run_program_concat (r : Renderer) {before : Program} {text : String}
    {ds : Contexts} {events : List Event} {a : String}
    (hbefore : (r.program s before).run cs = ⟨.ok text, ds, events⟩)
    (hx : ((r.statement s x).run ds).result = .ok a) :
    (r.program s (before ++ [x])).run cs = ⟨.ok (text ++ a), ((r.statement s x).run ds).contexts,
      events ++ ((r.statement s x).run ds).events⟩ := by
  rw [r.program_append, program_singleton, Render.append, Render.run_bind_of_ok (by rw [hbefore]),
    hbefore, Render.run_bind_of_ok hx]
  simp only [Render.run_pure, List.append_nil]

/-- One frame: it only depends on the frames that it opens. -/
theorem Frame.expand_eq {g : Frame} (h : ∀ h, g.Opens t f h → inner h = h.outcome t f) :
    g.expand t f inner = g.outcome t f := by
  obtain ⟨n, p, s, cs⟩ := g
  -- by induction on what is still to be rendered, behind what has been
  have hrest (before rest : Program) (hp : before ++ rest = p) {text : String} {ds : Contexts}
      {events : List Event}
      (hbefore : ((t.rendererIn f n).program s before).run cs = ⟨.ok text, ds, events⟩) :
      (t.programOver f inner n s rest).run ds = ((t.rendererIn f n).program s rest).run ds := by
    induction rest generalizing before text ds events with
    | nil => rfl
    | cons x rest ih =>
      subst hp
      rw [Template.programOver, Renderer.program_cons, Render.append, Render.append]
      have hx := Statement.run_over fun g hg => h g (.statement hbefore hg)
      refine Render.run_bind_congr hx fun a ha => ?_
      have hnext := Renderer.run_program_concat _ hbefore ha
      exact Render.run_bind_congr (ih (before ++ [x]) (by simp) hnext) fun _ _ => rfl
  have hbefore : ((t.rendererIn f n).program s []).run cs = ⟨.ok "", cs, []⟩ := rfl
  exact hrest [] p rfl hbefore

section
variable (t f) (other : Frame → Outcome String) (kept : Frame → Prop) [DecidablePred kept]

/-- The rendering of a frame by recursion from frame to frame. It breaks off, with the outcome
`other`, where `depth` frames are open inside one another and at frames that are not kept. -/
def Frame.unroll : Nat → Frame → Outcome String
  | 0, g => other g
  | depth + 1, g => if kept g then g.expand t f (unroll depth) else other g

end

/-- A whole run: where there is depth for all frames inside one another, and those that are reached
are kept, the recursion is the rendering. -/
theorem Frame.unroll_eq {other : Frame → Outcome String} {kept : Frame → Prop}
    [DecidablePred kept] {depth : Nat} {g : Frame} (hleft : g.left t < depth)
    (hkept : ∀ h, Relation.ReflTransGen (Frame.Opens t f) g h → kept h) :
    g.unroll t f other kept depth = g.outcome t f := by
  induction depth generalizing g with
  | zero => exact absurd hleft (Nat.not_lt_zero _)
  | succ depth ih =>
    rw [unroll, if_pos (hkept g .refl)]
    refine expand_eq fun h hgh => ih ?_ fun i hhi => hkept i (.head hgh hhi)
    exact hgh.left_lt.trans_le (Nat.le_of_lt_succ hleft)

end

end Stencil
