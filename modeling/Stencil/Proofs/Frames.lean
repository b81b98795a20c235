import Stencil.Proofs.Alike.Program
import Stencil.Proofs.Nesting
import Stencil.Proofs.Written.Tree
import Mathlib.Data.Set.Finite.Lattice

/-!
Renderings inside one another. A frame is one program, rendered in one scope; the tags, blocks and
insertions of the program open the frames of their sections and of the bodies of partials. A frame
that is opened has room for fewer partials or blocks that nest less deep than the one around it, or
no statements at all, so only so many frames are open inside one another.
-/
namespace Stencil

namespace Action

variable (means : Means)

/-- The first request of an action, and what goes on once it is answered. -/
def step : Action → Render Action
  | .done outcome => return .done outcome
  | .render which context data resume =>
    return resume (← (means.inSection which context data).attempt)
  | .access target key resume => return resume (← Render.attemptReading (target.access key))
  | .localize text resume => return resume (← means.template.localize text)
  | .escape raw resume => return resume (← means.template.escape raw)
  | .note event next => do
    Render.note event
    return next
  | .definePartial name source resume =>
    match Partial.compile source with
    | .ok p => do
      Render.update means.template.own (·.insertPartial name p)
      return resume (.ok ())
    | .error e => return resume (.error e)
  | .defineHelper name helper next => do
    Render.update means.template.own (·.registerHelper name helper)
    return next
  | .renderText source context resume =>
    return resume (← (means.standAlone source context).attempt)

/-- An action is carried out request by request. -/
theorem perform_eq_step (action : Action) :
    action.perform means = action.step means >>= fun next => next.perform means := by
  cases action with
  | definePartial name source resume =>
    rw [perform, step]
    cases Partial.compile source with
    | ok p => simp only [bind_assoc, pure_bind]
    | error e => simp only [pure_bind]
  | _ => simp only [perform, step, bind_assoc, pure_bind]

/-- A section that an action has rendered: for which value and data, and in which contexts. -/
structure SectionRun where
  which : Section
  value : Value
  data : PrivateData
  contexts : Contexts

/-- The sections that are rendered when an action is carried out. -/
inductive Runs : Action → Contexts → SectionRun → Prop
  | here {which v d resume cs} : Runs (.render which v d resume) cs ⟨which, v, d, cs⟩
  | later {action cs next run} : ((action.step means).run cs).result = .ok next →
      Runs next ((action.step means).run cs).contexts run → Runs action cs run

theorem not_runs_done {outcome : Except RenderError String} {cs : Contexts} {run : SectionRun} :
    ¬ (Action.done outcome).Runs means cs run := by
  intro h
  generalize ha : Action.done outcome = action at h
  induction h with
  | here => cases ha
  | later hnext _ ih =>
    subst ha
    exact ih (Except.ok.inj hnext)

/-- Only so many sections are rendered at once and by what goes on after the first request. -/
theorem finite_runs_of_step {action : Action} {cs : Contexts}
    (h : ∀ next, ((action.step means).run cs).result = .ok next → ∀ ds,
      {run | next.Runs means ds run}.Finite) :
    {run | action.Runs means cs run}.Finite := by
  have hfirst : {run | ∃ which v d resume, action = .render which v d resume ∧
      run = SectionRun.mk which v d cs}.Finite := by
    apply Set.Subsingleton.finite
    intro run hrun other hother
    obtain ⟨which, v, d, resume, rfl, rfl⟩ := hrun
    obtain ⟨_, _, _, _, h, rfl⟩ := hother
    cases h
    rfl
  cases hr : ((action.step means).run cs).result with
  | error e =>
    refine hfirst.subset fun run hrun => ?_
    cases hrun with
    | here => exact ⟨_, _, _, _, rfl, rfl⟩
    | later hnext _ => rw [hr] at hnext; cases hnext
  | ok next =>
    have hlater := h next hr ((action.step means).run cs).contexts
    refine (hfirst.union hlater).subset fun run hrun => ?_
    cases hrun with
    | here => exact .inl ⟨_, _, _, _, rfl, rfl⟩
    | later hnext hrun =>
      rw [hr] at hnext
      cases hnext
      exact .inr hrun

/-- An action that goes on with the answer to one request. -/
theorem finite_runs_of_request {α : Type} {action : Action} {m : Render α} (resume : α → Action)
    (hstep : action.step means = m >>= fun a => pure (resume a))
    (h : ∀ a ds, {run | (resume a).Runs means ds run}.Finite) (cs : Contexts) :
    {run | action.Runs means cs run}.Finite := by
  refine finite_runs_of_step means fun next hnext ds => ?_
  rw [hstep] at hnext
  cases hr : (m.run cs).result with
  | error e => rw [Render.run_bind_of_error hr] at hnext; cases hnext
  | ok a =>
    rw [Render.run_bind_of_ok hr] at hnext
    cases hnext
    exact h a ds

/-- An action has only so many sections rendered. -/
theorem finite_runs (action : Action) (cs : Contexts) :
    {run | action.Runs means cs run}.Finite := by
  induction action generalizing cs with
  | done outcome => exact Set.finite_empty.subset fun run hrun => not_runs_done means hrun
  | render which v d resume ih => exact finite_runs_of_request means resume rfl ih cs
  | access target key resume ih => exact finite_runs_of_request means resume rfl ih cs
  | localize text resume ih => exact finite_runs_of_request means resume rfl ih cs
  | escape raw resume ih => exact finite_runs_of_request means resume rfl ih cs
  | note event next ih =>
    exact finite_runs_of_request means (fun _ => next) rfl (fun _ => ih) cs
  | definePartial name source resume ih =>
    refine finite_runs_of_step means fun next hnext ds => ?_
    rw [step] at hnext
    split at hnext
    · cases hnext
      exact ih _ ds
    · cases hnext
      exact ih _ ds
  | defineHelper name helper next _ ih =>
    exact finite_runs_of_request means (fun _ => next) rfl (fun _ => ih) cs
  | renderText source context resume ih => exact finite_runs_of_request means resume rfl ih cs

end Action

/-! Frames. -/

/-- The program of a section. -/
def Section.of : Section → Program → Program → Program
  | .main, p, _ => p
  | .inverse, _, q => q

/-- The call of a helper by a block in a scope. -/
def Scope.blockCall (s : Scope) (name : String) (params : List Value)
    (named : List (String × Value)) (main inverse : Program) : Call where
  name := name
  kind := .block
  context := s.value
  data := s.data
  params := params
  named := named
  mainEmpty := main.isEmpty
  inverseEmpty := inverse.isEmpty

/-- The call of a helper by a tag in a scope. -/
def Scope.tagCall (s : Scope) (name : String) (params : List Value)
    (named : List (String × Value)) : Call where
  name := name
  kind := .expression
  context := s.value
  data := s.data
  params := params
  named := named
  mainEmpty := true
  inverseEmpty := true

/-- A program that is rendered in a scope, inside the bodies of `around` partials, and the contexts
that its rendering starts with. -/
structure Frame where
  around : Nat
  program : Program
  scope : Scope
  contexts : Contexts

section
variable (t : Template) (f : String → Value → Render String)

/-- The renderer of statements where `room` more partials may be entered. -/
def Template.rendererFor : Nat → Renderer
  | 0 => ⟨t, f, none⟩
  | room + 1 => ⟨t, f, some (renderProgram t f room)⟩

theorem renderProgram_eq (room : Nat) (p : Program) (s : Scope) :
    renderProgram t f room p s = (t.rendererFor f room).program s p := by
  cases room <;> rfl

/-- The renderer of statements inside the bodies of `around` partials. -/
def Template.rendererIn (around : Nat) : Renderer :=
  t.rendererFor f (t.options.partialLimit - around)

/-- The means of a helper that a block calls in a scope inside the bodies of `n` partials. Those of
a tag are the ones of a block without statements. -/
def Template.blockMeans (n : Nat) (s : Scope) (main inverse : Program) : Means :=
  ⟨t, fun which v d => (t.rendererIn f n).program (s.child v d) (which.of main inverse), f⟩

@[simp] theorem Template.rendererIn_template (n : Nat) : (t.rendererIn f n).template = t := by
  rw [rendererIn]
  cases t.options.partialLimit - n <;> rfl

@[simp] theorem Template.rendererIn_standAlone (n : Nat) : (t.rendererIn f n).standAlone = f := by
  rw [rendererIn]
  cases t.options.partialLimit - n <;> rfl

/-- A block calls the helper that its head names, with the means to have its sections rendered. -/
theorem Template.statement_block (n : Nat) (s : Scope) (path : Path) (arguments : Arguments)
    (main inverse : Program) :
    (t.rendererIn f n).statement s (.block path arguments main inverse) =
      ((t.rendererIn f n).headHelper? (some path) >>= fun found =>
        match found with
        | some (name, helper) => do
          let params ← Render.evaluateAll s arguments.positional
          let named ← Render.evaluateNamed s arguments.named.entries
          (helper (s.blockCall name params named main inverse)).perform
            (t.blockMeans f n s main inverse)
        | none => Render.fail (.missingHelper path.source)) := by
  rw [Renderer.statement]
  congr 1
  funext found
  rcases found with _ | ⟨name, helper⟩
  · rfl
  · simp only [Renderer.invoke, blockMeans, rendererIn_template, rendererIn_standAlone]
    congr 1
    funext params
    congr 1
    funext named
    congr 2
    funext which v d
    cases which <;> rfl

theorem Template.tagMeans_eq (n : Nat) (s : Scope) :
    (⟨t, fun _ v d => Renderer.emptyProgram (s.child v d), f⟩ : Means) =
      t.blockMeans f n s [] [] := by
  rw [blockMeans]
  congr 1
  funext which v d
  have hempty : which.of [] [] = [] := by cases which <;> rfl
  rw [hempty, Renderer.program_nil]

/-- The sections, `main` and `inverse`, that a call in a scope inside the bodies of `n` partials has
rendered: the call of the helper that `path?` names, if its arguments have values. -/
inductive Template.CallRuns (n : Nat) (s : Scope) (cs : Contexts) (path? : Option Path)
    (arguments : Arguments) (call : String → List Value → List (String × Value) → Call)
    (main inverse : Program) : Action.SectionRun → Prop
  | intro {name helper params named run} :
      path?.bind Path.helperName? = some name →
      ((t.helper? name).run cs).result = .ok (some helper) →
      ((Render.evaluateAll s arguments.positional).run cs).result = .ok params →
      ((Render.evaluateNamed s arguments.named.entries).run cs).result = .ok named →
      (helper (call name params named)).Runs (t.blockMeans f n s main inverse) cs run →
      CallRuns n s cs path? arguments call main inverse run

/-- The frames that a statement opens in a scope inside the bodies of `n` partials: for the sections
of blocks, for those of tags, which are empty, and for the bodies of partials. -/
inductive Statement.Opens (n : Nat) (s : Scope) (cs : Contexts) : Statement → Frame → Prop
  | tag {head arguments escaped run} :
      t.CallRuns f n s cs head.asPath? arguments s.tagCall [] [] run →
      Opens n s cs (.tag head arguments escaped)
        ⟨n, [], s.child run.value run.data, run.contexts⟩
  | block {path arguments main inverse run} :
      t.CallRuns f n s cs (some path) arguments
        (fun name params named => s.blockCall name params named main inverse) main inverse run →
      Opens n s cs (.block path arguments main inverse)
        ⟨n, run.which.of main inverse, s.child run.value run.data, run.contexts⟩
  | body {name named entries b} : n < t.options.partialLimit →
      ((t.partial? name).run cs).result = .ok (some b) →
      ((Render.evaluateNamed s named.entries).run cs).result = .ok entries →
      Opens n s cs (.insertion name none named)
        ⟨n + 1, b.program, s.withData (s.data.insertAll entries), cs⟩
  | bodyFor {name e v named entries b} : n < t.options.partialLimit →
      ((t.partial? name).run cs).result = .ok (some b) →
      ((Render.evaluateNamed s named.entries).run cs).result = .ok entries →
      ((Render.evaluate s e).run cs).result = .ok v →
      Opens n s cs (.insertion name (some e) named)
        ⟨n + 1, b.program, s.child v (s.data.insertAll entries), cs⟩

/-- The frames that are opened straight from a frame: by one of its statements, once those before it
are rendered. -/
inductive Frame.Opens : Frame → Frame → Prop
  | statement {n before x rest s cs text ds events g} :
      ((t.rendererIn f n).program s before).run cs = ⟨.ok text, ds, events⟩ →
      x.Opens t f n s ds g → Opens ⟨n, before ++ x :: rest, s, cs⟩ g

/-- How many frames can still be open inside a frame: for blocks in its own program and one for a
tag inside of them, and as many in the bodies of partials that may still be entered. -/
def Frame.left (g : Frame) : Nat :=
  (maxBlockDepth + 1) * (t.options.partialLimit - g.around) + programDepth g.program +
    min 1 g.program.length

end

section
variable {t : Template} {f : String → Value → Render String} {n : Nat} {s : Scope} {cs : Contexts}
  {x : Statement} {g h : Frame}

theorem Section.depth_of_le (which : Section) (main inverse : Program) :
    programDepth (which.of main inverse) ≤ max (programDepth main) (programDepth inverse) := by
  cases which with
  | main => exact Nat.le_max_left _ _
  | inverse => exact Nat.le_max_right _ _

/-- One more partial is entered only where fewer than the limit are being rendered. -/
theorem Statement.Opens.around_le (hx : x.Opens t f n s cs g) (hn : n ≤ t.options.partialLimit) :
    g.around ≤ t.options.partialLimit := by
  cases hx with
  | tag => exact hn
  | block => exact hn
  | body hlimit => exact hlimit
  | bodyFor hlimit => exact hlimit

theorem Statement.Opens.depth_le (hx : x.Opens t f n s cs g) (hdepth : x.depth ≤ maxBlockDepth) :
    programDepth g.program ≤ maxBlockDepth := by
  cases hx with
  | tag => exact Nat.zero_le _
  | @block _ _ main inverse run =>
    have hsection := run.which.depth_of_le main inverse
    rw [Statement.depth] at hdepth
    exact hsection.trans (by omega)
  | @body _ _ _ b => exact programDepth_le_of_parse b.parses
  | @bodyFor _ _ _ _ _ b => exact programDepth_le_of_parse b.parses

theorem Statement.Opens.outer_le (hx : x.Opens t f n s cs g) :
    g.scope.outer.length ≤ s.outer.length + 1 := by
  cases hx with
  | tag => exact Nat.le_refl _
  | block => exact Nat.le_refl _
  | body => exact Nat.le_succ _
  | bodyFor => exact Nat.le_refl _

/-- A section nests less deep than its block, and that of a tag is empty; for the body of a partial
there is room for one partial less. -/
theorem Statement.Opens.left_le (hx : x.Opens t f n s cs g) :
    g.left t ≤ (maxBlockDepth + 1) * (t.options.partialLimit - n) + x.depth := by
  have hbody (b : Partial) (hlimit : n < t.options.partialLimit) (s : Scope) :
      Frame.left t ⟨n + 1, b.program, s, cs⟩ ≤
        (maxBlockDepth + 1) * (t.options.partialLimit - n) := by
    have hdepth := programDepth_le_of_parse b.parses
    have hroom : t.options.partialLimit - n = t.options.partialLimit - (n + 1) + 1 := by omega
    simp only [Frame.left, hroom, Nat.mul_add]
    omega
  cases hx with
  | tag => exact Nat.le_add_right _ _
  | @block _ _ main inverse run =>
    have hdepth := run.which.depth_of_le main inverse
    simp only [Frame.left, Statement.depth]
    omega
  | @body _ _ _ b hlimit => exact Nat.le_add_right_of_le (hbody b hlimit _)
  | @bodyFor _ _ _ _ _ b hlimit => exact Nat.le_add_right_of_le (hbody b hlimit _)

/-- A frame that is opened has less left inside it. -/
theorem Frame.Opens.left_lt (hgh : g.Opens t f h) : h.left t < g.left t := by
  cases hgh with
  | statement _ hx =>
    have hleft := hx.left_le
    simp only [Frame.left, programDepth_append, programDepth, List.length_append,
      List.length_cons] at hleft ⊢
    omega

/-- What holds of every frame of a rendering: the scopes around it and what may still be open inside
it are together no more than `bound`. -/
structure Frame.Bounded (t : Template) (bound : Nat) (g : Frame) : Prop where
  around : g.around ≤ t.options.partialLimit
  depth : programDepth g.program ≤ maxBlockDepth
  outer : g.scope.outer.length + g.left t ≤ bound

/-- One step: a frame opens frames that are bounded as it is. -/
theorem Frame.Opens.bounded {bound : Nat} (hgh : g.Opens t f h) (hg : g.Bounded t bound) :
    h.Bounded t bound := by
  have hleft := hgh.left_lt
  have hbound := hg.outer
  cases hgh with
  | statement _ hx =>
    have hdepth := hg.depth
    have houter := hx.outer_le
    rw [programDepth_append, programDepth] at hdepth
    dsimp only at hbound
    exact ⟨hx.around_le hg.around, hx.depth_le (by omega), by omega⟩

/-- A whole run: so are the frames that those open, and so on. -/
theorem Frame.Bounded.reached {bound : Nat} (hg : g.Bounded t bound)
    (hgh : Relation.ReflTransGen (Frame.Opens t f) g h) : h.Bounded t bound := by
  induction hgh with
  | refl => exact hg
  | tail _ hopens ih => exact hopens.bounded ih

/-- Frames that are open inside one another. -/
theorem Frame.length_le_left {gs : List Frame} (hgs : (g :: gs).IsChain (Frame.Opens t f)) :
    gs.length ≤ g.left t := by
  induction gs generalizing g with
  | nil => exact Nat.zero_le _
  | cons h gs ih =>
    obtain ⟨hopens, hrest⟩ := List.isChain_cons_cons.mp hgs
    have hlength := ih hrest
    have hleft := hopens.left_lt
    rw [List.length_cons]
    omega

theorem Frame.bounded_start {p : Program} (hp : programDepth p ≤ maxBlockDepth) (v : Value) :
    Frame.Bounded t (maxBlockDepth * (t.options.partialLimit + 1) + t.options.partialLimit + 1)
      ⟨0, p, .root v, cs⟩ := by
  refine ⟨Nat.zero_le _, hp, ?_⟩
  simp only [Frame.left, Scope.root, List.length_nil, Nat.sub_zero, Nat.add_mul, Nat.mul_add]
  omega

/-! What a frame opens. -/

variable (t f)

theorem finite_callRuns (n : Nat) (s : Scope) (cs : Contexts) (path? : Option Path)
    (arguments : Arguments) (call : String → List Value → List (String × Value) → Call)
    (main inverse : Program) :
    {run | t.CallRuns f n s cs path? arguments call main inverse run}.Finite := by
  by_cases hcall : ∃ run, t.CallRuns f n s cs path? arguments call main inverse run
  · obtain ⟨_, @⟨name, helper, params, named, _, hname, hhelper, hparams, hnamed, _⟩⟩ := hcall
    refine (Action.finite_runs (t.blockMeans f n s main inverse)
      (helper (call name params named)) cs).subset ?_
    -- helper and arguments are what they are evaluated to
    rintro run @⟨_, _, _, _, _, hname', hhelper', hparams', hnamed', hrun⟩
    rw [hname] at hname'
    cases hname'
    rw [hhelper] at hhelper'
    cases hhelper'
    rw [hparams] at hparams'
    cases hparams'
    rw [hnamed] at hnamed'
    cases hnamed'
    exact hrun
  · exact Set.finite_empty.subset fun run hrun => hcall ⟨run, hrun⟩

theorem finite_statement_opens (n : Nat) (s : Scope) (cs : Contexts) (x : Statement) :
    {g | x.Opens t f n s cs g}.Finite := by
  cases x with
  | raw text => exact Set.finite_empty.subset nofun
  | comment text => exact Set.finite_empty.subset nofun
  | tag head arguments escaped =>
    refine ((finite_callRuns t f n s cs head.asPath? arguments s.tagCall [] []).image
      fun run => (⟨n, [], s.child run.value run.data, run.contexts⟩ : Frame)).subset ?_
    intro g hg
    cases hg with
    | tag hrun => exact ⟨_, hrun, rfl⟩
  | insertion name context named =>
    -- the partial, the parameters and the context are what they are evaluated to
    apply Set.Subsingleton.finite
    intro g hg h hh
    cases hg with
    | body _ hb hentries =>
      cases hh with
      | body _ hb' hentries' =>
        rw [hb] at hb'
        rw [hentries] at hentries'
        cases hb'
        cases hentries'
        rfl
    | bodyFor _ hb hentries hv =>
      cases hh with
      | bodyFor _ hb' hentries' hv' =>
        rw [hb] at hb'
        rw [hentries] at hentries'
        rw [hv] at hv'
        cases hb'
        cases hentries'
        cases hv'
        rfl
  | block path arguments main inverse =>
    refine ((finite_callRuns t f n s cs (some path) arguments
      (fun name params named => s.blockCall name params named main inverse) main inverse).image
      fun run => (⟨n, run.which.of main inverse, s.child run.value run.data, run.contexts⟩ :
        Frame)).subset ?_
    intro g hg
    cases hg with
    | block hrun => exact ⟨_, hrun, rfl⟩

/-- A frame opens only so many frames. -/
theorem finite_opens (g : Frame) : {h | g.Opens t f h}.Finite := by
  obtain ⟨n, p, s, cs⟩ := g
  have hposition (i : Nat) (ds : Contexts) :
      {h | ∃ x, p[i]? = some x ∧ x.Opens t f n s ds h}.Finite := by
    cases hx : p[i]? with
    | none => exact Set.finite_empty.subset fun h ⟨x, hx', _⟩ => nomatch hx'
    | some x =>
      refine (finite_statement_opens t f n s ds x).subset fun h ⟨y, hy, hopens⟩ => ?_
      cases hy
      exact hopens
  refine ((Set.finite_lt_nat p.length).biUnion fun i _ => hposition i
    (((t.rendererIn f n).program s (p.take i)).run cs).contexts).subset fun h hh => ?_
  cases hh with
  | @statement _ before x rest _ _ _ _ _ _ hrun hx =>
    refine Set.mem_biUnion (x := before.length) (by simp) ⟨x, by simp, ?_⟩
    rw [List.take_left, hrun]
    exact hx

end

end Stencil
