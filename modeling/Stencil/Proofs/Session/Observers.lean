import Stencil.Proofs.Session.Runs

/-!
Operations that only look. A template is compiled once, and a lookup or a rendering leaves what
contexts hold as it is, so that such operations can be left out of a run without a trace in what the
others tell.
-/
namespace Stencil

/-- Whether an operation only tells what a context holds. -/
def ContextOperation.observes : ContextOperation → Bool
  | .contents | .describe | .holds _ | .findHelper _ | .findPartial _ | .localize _ | .escape .. =>
    true
  | .registerHelper .. | .registerHelpers _ | .replaceHelper .. | .unregisterHelper _
  | .unregisterAllHelpers | .registerPartial .. | .registerPartials _ | .replacePartial ..
  | .unregisterPartial _ | .unregisterAllPartials | .copyPartial .. | .setDelegate _ => false

/-- Whether an operation compiles or renders a template, or only tells what is there. -/
def Operation.observes : Operation → Bool
  | .onContext _ operation => operation.observes
  | .onTemplate .. => true
  | .makeContext | .makeTemplate .. | .loadTemplate _ => false

theorem ContextOperation.apply_of_observes {operation : ContextOperation}
    (h : operation.observes = true) (cs : Contexts) (c : ExecutionContext) :
    operation.apply cs c = c := by
  cases operation with
  | contents | describe | holds _ | findHelper _ | findPartial _ | localize _ | escape _ _ => rfl
  | registerHelper _ _ | registerHelpers _ | replaceHelper _ _ | unregisterHelper _
  | unregisterAllHelpers | registerPartial _ _ | registerPartials _ | replacePartial _ _
  | unregisterPartial _ | unregisterAllPartials | copyPartial _ _ _ | setDelegate _ => cases h

/-- A reply, but for whether a template was compiled before. -/
def Reply.settled (r : Reply) : Reply :=
  match r.answer with
  | .info t _ => { r with answer := .info t false }
  | _ => r

/-- The members of a list that are marked. -/
def marked {α : Type} : List Bool → List α → List α
  | true :: marks, a :: rest => a :: marked marks rest
  | false :: marks, _ :: rest => marked marks rest
  | [], _ | _ :: _, [] => []

namespace Session

/-- Two sessions that differ at most in which templates were compiled. -/
structure SameButCompiled (s s' : Session) : Prop where
  contexts : s.contexts = s'.contexts
  made : s.made = s'.made
  sources : s.sources = s'.sources

theorem snd_tryChange (s s' : Session) (id : ContextId) (r : Except ParseError ExecutionContext)
    (answer : Answer) : (s.tryChange id r answer).2 = (s'.tryChange id r answer).2 := by
  cases r <;> rfl

namespace SameButCompiled

theorem refl (s : Session) : s.SameButCompiled s := ⟨rfl, rfl, rfl⟩

variable {s s' : Session} (h : s.SameButCompiled s')
include h

theorem trans {s'' : Session} (h' : s'.SameButCompiled s'') : s.SameButCompiled s'' :=
  ⟨h.contexts.trans h'.contexts, h.made.trans h'.made, h.sources.trans h'.sources⟩

theorem compile (i : TemplateId) : (s.compile i).SameButCompiled (s'.compile i) where
  contexts := h.contexts
  made := h.made
  sources := by rw [sources_compile, sources_compile, h.sources]

theorem has (id : ContextId) : s.has id = s'.has id := by
  cases id with
  | global | scratch _ => rfl
  | made index => rw [Session.has, Session.has, h.made]

theorem change (id : ContextId) (f : ExecutionContext → ExecutionContext) :
    (s.change id f).SameButCompiled (s'.change id f) where
  contexts := congrArg (·.update id f) h.contexts
  made := h.made
  sources := h.sources

theorem perform {α : Type} (m : Render α) (answer : α → Answer) :
    (s.perform m answer).1.SameButCompiled (s'.perform m answer).1 ∧
      (s.perform m answer).2 = (s'.perform m answer).2 := by
  refine ⟨⟨?_, h.made, h.sources⟩, ?_⟩
  · simp only [Session.perform, h.contexts]
  · simp only [Session.perform, h.contexts]

theorem nextContext : s.nextContext = s'.nextContext := congrArg ContextId.made h.made

theorem addTemplate {x x' : TemplateState} (hx : x.template = x'.template) :
    (s.addTemplate x).1.SameButCompiled (s'.addTemplate x').1 ∧
      (s.addTemplate x).2 = (s'.addTemplate x').2 := by
  have hlength : s.templates.length = s'.templates.length := by
    simpa [Session.sources] using congrArg List.length h.sources
  refine ⟨⟨?_, congrArg (· + 1) h.made, ?_⟩, ?_⟩
  · simp only [Session.addTemplate, addContext, h.contexts, h.nextContext]
  · rw [sources_addTemplate, sources_addTemplate, h.sources, hx]
  · simp only [Session.addTemplate, hlength]

theorem onContext (id : ContextId) (operation : ContextOperation) :
    (s.onContext id operation).1.SameButCompiled (s'.onContext id operation).1 ∧
      (s.onContext id operation).2 = (s'.onContext id operation).2 := by
  constructor
  · rw [fst_onContext, fst_onContext, h.contexts]
    exact h.change id _
  · cases operation with
    | registerPartial _ _ | registerPartials _ | replacePartial _ _ =>
      simp only [Session.onContext, h.contexts]
      exact snd_tryChange s s' id _ _
    | copyPartial origin name target =>
      simp only [Session.onContext, h.contexts]
      cases (s'.contexts.get origin).partials.get? name <;> rfl
    | findHelper _ | findPartial _ | localize _ | escape _ _ => exact (h.perform _ _).2
    | registerHelper _ _ | registerHelpers _ | replaceHelper _ _ | unregisterHelper _
    | unregisterAllHelpers | unregisterPartial _ | unregisterAllPartials | setDelegate _
    | contents | describe | holds _ => simp only [Session.onContext, h.contexts]

/-- A template was compiled to what its text is compiled to, so it makes no difference when. -/
theorem onTemplate (i : TemplateId) (operation : TemplateOperation) :
    (s.onTemplate i operation).1.SameButCompiled (s'.onTemplate i operation).1 ∧
      (s.onTemplate i operation).2.settled = (s'.onTemplate i operation).2.settled := by
  have htemplate : s.templates[i]?.map (·.template) = s'.templates[i]?.map (·.template) := by
    rw [← List.getElem?_map, ← List.getElem?_map]
    exact congrArg (·[i]?) h.sources
  rw [Session.onTemplate, Session.onTemplate]
  cases hx : s.templates[i]? with
  | none =>
    cases hx' : s'.templates[i]? with
    | none => exact ⟨h, rfl⟩
    | some x' => simp [hx, hx'] at htemplate
  | some x =>
    cases hx' : s'.templates[i]? with
    | none => simp [hx, hx'] at htemplate
    | some x' =>
      have hsame : x.template = x'.template := by simpa [hx, hx'] using htemplate
      cases operation with
      | info => exact ⟨h, by simp [Reply.settled, hsame]⟩
      | compile =>
        refine ⟨h.compile i, ?_⟩
        simp only [x.outcome_eq, x'.outcome_eq, hsame]
      | render context =>
        simp only [x.outcome_eq, x'.outcome_eq, hsame]
        exact ((h.compile i).perform _ _).imp_right (congrArg _)
      | findHelper _ | findPartial _ | localize _ | escape _ =>
        simp only [hsame]
        exact (h.perform _ _).imp_right (congrArg _)

/-- Every operation tells the same in two such sessions, and leads to two such sessions. -/
theorem step (operation : Operation) :
    (s.step operation).1.SameButCompiled (s'.step operation).1 ∧
      (s.step operation).2.settled = (s'.step operation).2.settled := by
  cases operation with
  | makeContext =>
    refine ⟨⟨?_, congrArg (· + 1) h.made, h.sources⟩, ?_⟩
    · simp only [Session.step, addContext, h.contexts, h.nextContext]
    · simp only [Session.step, h.nextContext]
  | makeTemplate source shared options =>
    rw [Session.step, Session.step, show s.has = s'.has from funext h.has, h.nextContext]
    split
    · exact (h.addTemplate rfl).imp_right (congrArg _)
    · exact ⟨h, rfl⟩
  | loadTemplate document =>
    rw [Session.step, Session.step, h.nextContext]
    split
    · exact (h.addTemplate rfl).imp_right (congrArg _)
    · exact ⟨h, rfl⟩
  | onContext id operation =>
    rw [Session.step, Session.step, h.has]
    split
    · exact (h.onContext id operation).imp_right (congrArg _)
    · exact ⟨h, rfl⟩
  | onTemplate i operation => exact h.onTemplate i operation

end SameButCompiled

/-- Looking changes nothing. -/
theorem step_of_observes {s : Session} (hs : s.contexts.HelpersPreserve) {operation : Operation}
    (h : operation.observes = true) : (s.step operation).1.SameButCompiled s := by
  cases operation with
  | onContext id operation =>
    rw [step]
    split
    · rw [fst_onContext, s.change_self id (operation.apply_of_observes h _ _)]
      exact .refl s
    · exact .refl s
  | onTemplate i operation =>
    rw [step, fst_onTemplate hs]
    split
    · exact ⟨rfl, rfl, s.sources_compile i⟩
    · exact .refl s
  | makeContext | makeTemplate _ _ _ | loadTemplate _ => cases h

/-- When operations that only look are left out of a run, the others are answered as they were, and
they lead to the same session. -/
theorem runAll_marked {s s' : Session} (hs : s.Sound) (h : s.SameButCompiled s')
    {operations : List Operation} (hhelpers : ∀ operation ∈ operations, operation.HelpersPreserve)
    (marks : List Bool) (hlength : marks.length = operations.length)
    (hleft : ∀ operation ∈ marked (marks.map not) operations, operation.observes = true) :
    (s.runAll operations).1.SameButCompiled (s'.runAll (marked marks operations)).1 ∧
      (marked marks (s.runAll operations).2).map Reply.settled =
        (s'.runAll (marked marks operations)).2.map Reply.settled := by
  induction operations generalizing s s' marks with
  | nil =>
    obtain rfl := List.length_eq_zero_iff.mp hlength
    exact ⟨h, rfl⟩
  | cons operation rest ih =>
    have hnext := hs.step (hhelpers operation (by simp))
    have hrest : ∀ other ∈ rest, other.HelpersPreserve := fun other hother =>
      hhelpers other (by simp [hother])
    cases marks with
    | nil => cases hlength
    | cons mark marks =>
      have htail : marks.length = rest.length := Nat.succ.inj hlength
      cases mark with
      | true =>
        obtain ⟨hsame, hreply⟩ := h.step operation
        exact (ih hnext hsame hrest marks htail hleft).imp_right (congrArg₂ List.cons hreply)
      | false =>
        have hlooks : operation.observes = true := hleft operation (by simp [marked])
        have hsame := (step_of_observes hs.helpers hlooks).trans h
        exact ih hnext hsame hrest marks htail fun other hother =>
          hleft other (by simp [marked, hother])

end Session
end Stencil
