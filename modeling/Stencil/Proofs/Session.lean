import Stencil.Proofs.Renaming
import Stencil.Proofs.Session.Observers

/-!
What a session comes to. A context holds what was registered last, whatever was rendered or looked
up in between, and a rendering depends on nothing but the text, the options and what contexts hold.
-/
namespace Stencil

/-- The context `.made i` under the identifier of `.made j`, which is left out. -/
def Renaming.moved (i j : Nat) : Renaming where
  rel a b := a = .made i ∧ b = .made j ∨ a = b ∧ a ≠ .made i ∧ a ≠ .made j
  unique := by grind
  global := .inr ⟨rfl, nofun, nofun⟩
  scratch _ := .inr ⟨rfl, nofun, nofun⟩

namespace Session

variable {s : Session}

/-- Operations on one context leave the templates and the other contexts as they are. -/
theorem runAll_onContext {id : ContextId} (hid : s.has id = true)
    (operations : List ContextOperation) :
    (s.runAll (operations.map (.onContext id))).1.templates = s.templates ∧
      ∀ other ≠ id, (s.runAll (operations.map (.onContext id))).1.contexts.get other =
        s.contexts.get other := by
  induction operations generalizing s with
  | nil => exact ⟨rfl, fun _ _ => rfl⟩
  | cons operation rest ih =>
    have hstep : (s.step (.onContext id operation)).1 =
        s.change id (operation.apply s.contexts) := by
      rw [step, if_pos hid, fst_onContext]
    have hrest := ih (s := s.change id (operation.apply s.contexts)) hid
    rw [List.map_cons, runAll]
    dsimp only
    rw [hstep]
    refine ⟨hrest.1, fun other hother => (hrest.2 other hother).trans ?_⟩
    simp [change, hother]

theorem snd_render {i : TemplateId} {x : TemplateState} (hx : s.templates[i]? = some x)
    (v : Value) :
    (s.step (.onTemplate i (.render v))).2 =
      ((x.template.render v).run s.contexts).reply .text := by
  rw [step, onTemplate, hx]
  simp only [x.outcome_eq, Template.renderCompiled_parse]
  rfl

theorem Sound.all_shared (hs : s.Sound) {t : Template} (ht : t ∈ s.sources) :
    t.shared.all s.has = true := by
  cases hid : t.shared with
  | none => rfl
  | some id => exact (hs.shared ht hid).1

/-- The next context to be made can stand in for a template's own: the template shares neither. -/
theorem Sound.twins_moved (hs : s.Sound) {t : Template} (ht : t ∈ s.sources) {index : Nat}
    (hown : t.own = .made index) :
    (Renaming.moved index s.made).Twins t { t with own := s.nextContext } := by
  refine ⟨rfl, rfl, .inl ⟨hown, rfl⟩, ?_⟩
  change Option.Rel _ t.shared t.shared
  cases hid : t.shared with
  | none => exact .none
  | some id =>
    obtain ⟨hhas, hne⟩ := hs.shared ht hid
    refine .some (.inr ⟨rfl, hown ▸ hne, fun hnext => ?_⟩)
    rw [hnext] at hhas
    exact Bool.eq_false_iff.mp s.has_nextContext hhas

/-- A template renders as one does that is made now of the same text, options and shared context,
and whose own context is given the same content. -/
theorem render_fresh (hs : s.Sound) {i : TemplateId} {x : TemplateState}
    (hx : s.templates[i]? = some x) (operations : List ContextOperation) {s' : Session}
    (hs' : s' = (s.runAll (.makeTemplate x.template.source x.template.shared x.template.options ::
      operations.map (.onContext s.nextContext))).1)
    (hsame : (s'.contexts.get s.nextContext).HoldsSame (s.contexts.get x.template.own))
    (v : Value) :
    (s'.step (.onTemplate s.templates.length (.render v))).2.answer =
        (s.step (.onTemplate i (.render v))).2.answer ∧
      (s'.step (.onTemplate s.templates.length (.render v))).2.events.map Event.unplaced =
        (s.step (.onTemplate i (.render v))).2.events.map Event.unplaced := by
  have ht : x.template ∈ s.sources := List.mem_map_of_mem (List.mem_of_getElem? hx)
  obtain ⟨own, -, hown⟩ := hs.own ht
  let y : TemplateState := .fresh { x.template with own := s.nextContext }
  have hmake : (s.step (.makeTemplate x.template.source x.template.shared x.template.options)).1 =
      (s.addTemplate y).1 := by
    rw [step, if_pos (hs.all_shared ht)]
  have hnext : (s.addTemplate y).1.has s.nextContext = true :=
    decide_eq_true (Nat.lt_succ_self _)
  obtain ⟨htemplates, hcontexts⟩ := runAll_onContext hnext operations
  rw [runAll] at hs'
  dsimp only at hs'
  rw [hmake] at hs'
  rw [← hs'] at htemplates hcontexts
  have hy : s'.templates[s.templates.length]? = some y := by
    rw [htemplates]
    exact List.getElem?_concat_length
  -- the new template meets in its own context what the old one meets in another
  have hcarries : (Renaming.moved own s.made).Carries s.contexts s'.contexts := by
    rintro a b (⟨rfl, rfl⟩ | ⟨rfl, -, hne⟩)
    · exact hown ▸ hsame.eq.symm
    · rw [hcontexts a hne]
      exact congrArg (·.get a) hs.contexts_addContext.symm
  have houtcome := Renaming.mirrors_render (hs.twins_moved ht hown) v hcarries
  rw [snd_render hx, snd_render hy]
  refine ⟨?_, houtcome.events.symm⟩
  simp only [Outcome.reply, houtcome.result]
  rfl

theorem answer_registerPartial (s : Session) (id : ContextId) (name source : String)
    (answer : Answer) :
    (s.tryChange id ((s.contexts.get id).registerPartial name source) answer).2.answer =
      match Partial.compile source with
      | .ok _ => answer
      | .error e => .failed (.parse e) := by
  rw [ExecutionContext.registerPartial]
  cases Partial.compile source <;> rfl

theorem answer_registerPartials (s : Session) (id : ContextId) (sources : List (String × String))
    (answer : Answer) :
    (s.tryChange id ((s.contexts.get id).registerPartials sources) answer).2.answer =
      match compileAll sources with
      | .ok _ => answer
      | .error e => .failed (.parse e) := by
  rw [ExecutionContext.registerPartials]
  cases compileAll sources <;> rfl

/-- Whoever registers or removes an entry is told what was held before, or why a text does not
parse. -/
theorem registration_answers (s : Session) {id : ContextId} (hid : s.has id = true)
    (name : String) :
    (∀ helper, (s.step (.onContext id (.replaceHelper name helper))).2.answer =
      .formerHelper ((s.contexts.get id).helpers.get? name)) ∧
    (s.step (.onContext id (.unregisterHelper name))).2.answer =
      .formerHelper ((s.contexts.get id).helpers.get? name) ∧
    (∀ source, (s.step (.onContext id (.replacePartial name source))).2.answer =
      match Partial.compile source with
      | .ok _ => .formerPartial ((s.contexts.get id).partials.get? name)
      | .error e => .failed (.parse e)) ∧
    (s.step (.onContext id (.unregisterPartial name))).2.answer =
      .formerPartial ((s.contexts.get id).partials.get? name) ∧
    (∀ source, (s.step (.onContext id (.registerPartial name source))).2.answer =
      match Partial.compile source with
      | .ok _ => .done
      | .error e => .failed (.parse e)) ∧
    (∀ sources, (s.step (.onContext id (.registerPartials sources))).2.answer =
      match compileAll sources with
      | .ok _ => .done
      | .error e => .failed (.parse e)) := by
  simp only [step, if_pos hid]
  exact ⟨fun _ => rfl, rfl, fun source => s.answer_registerPartial id name source _, rfl,
    fun source => s.answer_registerPartial id name source _,
    fun sources => s.answer_registerPartials id sources _⟩

/-- Last write wins, and looking leaves no trace. In a run in which no helper changes contexts:
* A context that is made was not there before, and every template has one of its own, which is
  neither the global one nor any that another template has or that it shares itself.
* A context holds an entry under a name exactly if the last change that touched the name put it
  there. Its delegate is the one that was set last.
* Registering an entry and removing one tell what was held before, and a text is registered if it
  parses.
* The names that are told are those held, in strictly increasing order, as many as there are.
* Only an operation on a context changes what it holds.
* When compilations, renderings and lookups are left out, all other operations are answered as they
  were and lead to the same session, but for whether templates were compiled.
* A template renders as one that is made afterwards of the same text, options and shared context,
  once the context of its own holds the same. -/
theorem last_write_wins (operations : List Operation)
    (h : ∀ operation ∈ operations, operation.HelpersPreserve) :
    let s := (runAll {} operations).1
    (s.has s.nextContext = false ∧ (s.step .makeContext).2.answer = .context s.nextContext ∧
      (s.step .makeContext).1.has s.nextContext = true) ∧
    ((∀ t ∈ s.sources, s.has t.own = true ∧ t.own ≠ .global ∧ t.shared ≠ some t.own) ∧
      (s.sources.map (·.own)).Nodup) ∧
    (∀ id name helper, (s.contexts.get id).helpers.get? name = some helper ↔
      LastTouch name (.hold name helper) (helperLog {} id operations)) ∧
    (∀ id name p, (s.contexts.get id).partials.get? name = some p ↔
      LastTouch name (.hold name p) (partialLog {} id operations)) ∧
    (∀ id, (s.contexts.get id).delegate = (delegateLog {} id operations).getLast?.join) ∧
    (∀ id, s.has id = true → ∀ name,
      (∀ helper, (s.step (.onContext id (.replaceHelper name helper))).2.answer =
        .formerHelper ((s.contexts.get id).helpers.get? name)) ∧
      (s.step (.onContext id (.unregisterHelper name))).2.answer =
        .formerHelper ((s.contexts.get id).helpers.get? name) ∧
      (∀ source, (s.step (.onContext id (.replacePartial name source))).2.answer =
        match Partial.compile source with
        | .ok _ => .formerPartial ((s.contexts.get id).partials.get? name)
        | .error e => .failed (.parse e)) ∧
      (s.step (.onContext id (.unregisterPartial name))).2.answer =
        .formerPartial ((s.contexts.get id).partials.get? name) ∧
      (∀ source, (s.step (.onContext id (.registerPartial name source))).2.answer =
        match Partial.compile source with
        | .ok _ => .done
        | .error e => .failed (.parse e)) ∧
      (∀ sources, (s.step (.onContext id (.registerPartials sources))).2.answer =
        match compileAll sources with
        | .ok _ => .done
        | .error e => .failed (.parse e))) ∧
    (∀ id, s.has id = true → ∃ helpers partials delegated,
      (s.step (.onContext id .contents)).2.answer = .contents helpers partials delegated ∧
      helpers.Tells (s.contexts.get id).helpers.get? ∧
      partials.Tells (s.contexts.get id).partials.get? ∧
      ∀ name, (s.step (.onContext id (.holds name))).2.answer =
        .holds (decide (name ∈ helpers.names)) (decide (name ∈ partials.names))) ∧
    (∀ id operation, (∀ found, operation ≠ .onContext id found) →
      (s.step operation).1.contexts.get id = s.contexts.get id) ∧
    (∀ marks : List Bool, marks.length = operations.length →
      (∀ operation ∈ marked (marks.map not) operations, operation.observes = true) →
      s.SameButCompiled (runAll {} (marked marks operations)).1 ∧
        (marked marks (runAll {} operations).2).map Reply.settled =
          (runAll {} (marked marks operations)).2.map Reply.settled) ∧
    (∀ i x, s.templates[i]? = some x → ∀ filling : List ContextOperation,
      let make := .makeTemplate x.template.source x.template.shared x.template.options
      let s' := (s.runAll (make :: filling.map (.onContext s.nextContext))).1
      (s'.contexts.get s.nextContext).HoldsSame (s.contexts.get x.template.own) → ∀ v,
        let before := (s.step (.onTemplate i (.render v))).2
        let fresh := (s'.step (.onTemplate s.templates.length (.render v))).2
        fresh.answer = before.answer ∧
          fresh.events.map Event.unplaced = before.events.map Event.unplaced) := by
  intro s
  have hs : s.Sound := sound_empty.runAll h
  have hget (id : ContextId) := get_runAll sound_empty id h
  refine ⟨⟨s.has_nextContext, rfl, decide_eq_true (Nat.lt_succ_self _)⟩,
    ⟨fun t ht => ?_, hs.distinct⟩, fun id name helper => ?_, fun id name p => ?_, fun id => ?_,
    fun id hid => s.registration_answers hid, fun id hid => ?_, fun id operation hother => ?_,
    fun marks hlength hleft => ?_, ?_⟩
  · obtain ⟨index, hindex, hown⟩ := hs.own ht
    refine ⟨?_, ?_, fun hshared => (hs.shared ht hshared).2 rfl⟩
    · rw [hown]
      exact decide_eq_true hindex
    · rw [hown]
      nofun
  · rw [hget id]
    exact NameMap.get?_changeAll _ _ _
  · rw [hget id]
    exact NameMap.get?_changeAll _ _ _
  · rw [hget id]
    cases (delegateLog {} id operations).getLast? <;> rfl
  · refine ⟨_, _, _, by rw [step, if_pos hid]; rfl, NameMap.listing_tells _,
      NameMap.listing_tells _, fun name => ?_⟩
    rw [step, if_pos hid, onContext]
    simp only [NameMap.contains_eq]
    rfl
  · rw [get_step hs]
    cases operation with
    | onContext other found =>
      have hne : other ≠ id := fun heq => hother found (by rw [heq])
      simp [on?, hne]
    | makeContext | makeTemplate _ _ _ | loadTemplate _ | onTemplate _ _ => rfl
  · exact runAll_marked sound_empty (.refl _) h marks hlength hleft
  · intro i x hx filling make s' hsame v
    exact render_fresh hs hx filling rfl hsame v

/-- A template whose context is filled twice over, and which is rendered in between. -/
theorem last_write_wins_twice :
    let hello : Helper := fun _ => .text "hello"
    let bye : Helper := fun _ => .text "bye"
    let operations : List Operation :=
      [.makeTemplate "hi" none {}, .onContext (.made 0) (.registerHelper "word" hello),
        .onTemplate 0 (.render .null),
        .onContext (.made 0) (.registerHelpers [("word", hello), ("word", bye)]),
        .onContext .global .contents, .onContext (.made 0) (.unregisterHelper "other")]
    let s := (runAll {} operations).1
    let marks := [true, true, false, true, false, true]
    (∀ operation ∈ operations, operation.HelpersPreserve) ∧
      (s.contexts.get (.made 0)).helpers.get? "word" = some bye ∧
      (s.contexts.get .global).helpers.get? "word" = none ∧
      (marked marks (runAll {} operations).2).map Reply.settled =
        (runAll {} (marked marks operations)).2.map Reply.settled := by
  intro hello bye operations s marks
  have hhello : hello.Preserves := Helper.preserves_of_readOnly fun _ => .done _
  have hbye : bye.Preserves := Helper.preserves_of_readOnly fun _ => .done _
  have hpreserves : ∀ operation ∈ operations, operation.HelpersPreserve := by
    intro operation hoperation
    simp only [operations, List.mem_cons, List.not_mem_nil, or_false] at hoperation
    rcases hoperation with rfl | rfl | rfl | rfl | rfl | rfl
    · trivial
    · refine ⟨fun hmem => ?_, nofun⟩
      cases List.mem_singleton.mp hmem
      exact hhello
    · trivial
    · refine ⟨fun hmem => ?_, nofun⟩
      simp only [ContextOperation.helperChanges, List.map_cons, List.map_nil, List.mem_cons,
        Change.hold.injEq, List.not_mem_nil, or_false] at hmem
      rcases hmem with ⟨-, rfl⟩ | ⟨-, rfl⟩
      · exact hhello
      · exact hbye
    · exact ⟨nofun, nofun⟩
    · refine ⟨fun hmem => ?_, nofun⟩
      cases List.mem_singleton.mp hmem
  obtain ⟨-, -, hhelpers, -, -, -, -, -, hmarked, -⟩ := last_write_wins operations hpreserves
  refine ⟨hpreserves, (hhelpers (.made 0) "word" bye).mpr ?_, ?_, (hmarked marks rfl ?_).2⟩
  · exact ⟨[.hold "word" hello, .hold "word" hello], [.drop "other"], rfl, rfl,
      by simp [Change.Touches]⟩
  · refine Option.eq_none_iff_forall_ne_some.mpr fun helper hfound => ?_
    obtain ⟨before, after, hlog, -⟩ := (hhelpers .global "word" helper).mp hfound
    cases before <;> cases hlog
  · simp [operations, marks, marked, Operation.observes, ContextOperation.observes]

end Session
end Stencil
