import Stencil.Proofs.Preservation
import Stencil.Proofs.Session.Changes

/-!
Runs of sessions. As long as no helper changes a context, only the operations on a context change
what it holds, so that its registries are what their changes made of them, one after the other.
-/
namespace Stencil

/-- An operation on a context that brings no helper into it, by itself or by a delegate, that
changes a context. -/
structure ContextOperation.HelpersPreserve (operation : ContextOperation) : Prop where
  registered {name : String} {helper : Helper} :
    .hold name helper ∈ operation.helperChanges → helper.Preserves
  supplied {delegate : Delegate} {name : String} {helper : Helper} :
    some delegate ∈ operation.delegates → delegate.helper? name = some helper → helper.Preserves

/-- No helper that an operation brings into a context changes a context. -/
def Operation.HelpersPreserve : Operation → Prop
  | .onContext _ operation => operation.HelpersPreserve
  | .makeContext | .makeTemplate .. | .loadTemplate _ | .onTemplate .. => True

theorem Contexts.HelpersPreserve.apply {cs : Contexts} (h : cs.HelpersPreserve)
    {operation : ContextOperation} (hoperation : operation.HelpersPreserve) (id : ContextId) :
    (cs.update id (operation.apply cs)).HelpersPreserve where
  registered {other name helper} hfound := by
    rw [get_update] at hfound
    split at hfound
    · rcases NameMap.get?_changeAll_or _ _ hfound with hbefore | hbrought
      · exact h.registered hbefore
      · exact hoperation.registered hbrought
    · exact h.registered hfound
  supplied {other delegate name helper} hdelegate hfound := by
    rw [get_update] at hdelegate
    split at hdelegate
    · cases hlast : operation.delegates.getLast? with
      | none =>
        rw [ContextOperation.apply, hlast] at hdelegate
        exact h.supplied hdelegate hfound
      | some d =>
        rw [ContextOperation.apply, hlast] at hdelegate
        cases hdelegate
        exact hoperation.supplied (List.mem_of_getLast? hlast) hfound
    · exact h.supplied hdelegate hfound

/-- A template of a document shares no context. -/
theorem Template.contexts_of_ofJson {document : Json} {own : ContextId} {t : Template}
    (h : ofJson document own = .ok t) : t.own = own ∧ t.shared = none := by
  rw [ofJson] at h
  split at h
  · cases h
  · split at h
    · cases h
    · cases h
      exact ⟨rfl, rfl⟩

/-- Whether an operation on a template compiles it. -/
def TemplateOperation.compiles : TemplateOperation → Bool
  | .compile | .render _ => true
  | .findHelper _ | .findPartial _ | .localize _ | .escape _ | .info => false

namespace Session

variable {s : Session}

/-- The templates of a session, compiled or not. -/
def sources (s : Session) : List Template := s.templates.map (·.template)

@[simp] theorem sources_compile (s : Session) (i : TemplateId) :
    (s.compile i).sources = s.sources := by
  apply List.ext_getElem?
  intro j
  simp only [sources, compile, List.getElem?_map, List.getElem?_modify]
  cases s.templates[j]? with
  | none => rfl
  | some x => simp only [Option.map_eq_map, Option.map_some]; split <;> rfl

/-- An operation on a template may compile it, and does nothing else to the session. -/
theorem fst_onTemplate (hs : s.contexts.HelpersPreserve) (i : TemplateId)
    (operation : TemplateOperation) :
    (s.onTemplate i operation).1 = if operation.compiles then s.compile i else s := by
  rw [onTemplate]
  cases hi : s.templates[i]? with
  | none =>
    have hlength : s.templates.length ≤ i := List.getElem?_eq_none_iff.mp hi
    simp [compile, List.modify_eq_self hlength]
  | some x =>
    obtain ⟨t, compiled, faithful⟩ := x
    cases operation with
    | findHelper name => exact s.fst_perform _ (by rw [t.run_helper?])
    | findPartial name => exact s.fst_perform _ (by rw [t.run_partial?])
    | localize text => exact s.fst_perform _ (by rw [t.run_localize])
    | escape text => exact s.fst_perform _ (by rw [t.run_escape])
    | info => rfl
    | compile => rfl
    | render context =>
      refine (s.compile i).fst_perform _ ?_
      rw [TemplateState.outcome_eq, Template.renderCompiled_parse]
      exact t.leaves_render hs context

/-- What holds of every session that operations lead to: contexts that were not made are empty, no
helper changes a context, and every template has a context of its own, which is no other template's
and not the one that it shares. -/
structure Sound (s : Session) : Prop where
  fresh {id : ContextId} : s.has id = false → s.contexts.get id = {}
  helpers : s.contexts.HelpersPreserve
  own {t : Template} : t ∈ s.sources → ∃ index < s.made, t.own = .made index
  distinct : (s.sources.map (·.own)).Nodup
  shared {t : Template} {id : ContextId} :
    t ∈ s.sources → t.shared = some id → s.has id = true ∧ id ≠ t.own

theorem sound_empty : Sound {} where
  fresh _ := rfl
  helpers := Contexts.helpersPreserve_empty
  own := nofun
  distinct := .nil
  shared := nofun

theorem has_nextContext (s : Session) : s.has s.nextContext = false := by
  simp [has, nextContext]

theorem has_addContext {id : ContextId} (h : s.has id = true) : s.addContext.has id = true := by
  cases id with
  | global => rfl
  | made index => exact decide_eq_true (Nat.lt_succ_of_lt (of_decide_eq_true h))
  | scratch level => cases h

theorem sources_addTemplate (s : Session) (x : TemplateState) :
    (s.addTemplate x).1.sources = s.sources ++ [x.template] :=
  List.map_append

namespace Sound

variable (hs : s.Sound)
include hs

/-- A context that is made was empty before. -/
theorem contexts_addContext : s.addContext.contexts = s.contexts := by
  refine s.contexts.update_self (f := fun _ => {}) ?_
  exact (hs.fresh s.has_nextContext).symm

theorem addContext : s.addContext.Sound where
  fresh hid := by
    rw [hs.contexts_addContext]
    exact hs.fresh (Bool.eq_false_iff.mpr fun h => Bool.eq_false_iff.mp hid (has_addContext h))
  helpers := hs.contexts_addContext ▸ hs.helpers
  own ht := by
    obtain ⟨index, hindex, hown⟩ := hs.own ht
    exact ⟨index, Nat.lt_succ_of_lt hindex, hown⟩
  distinct := hs.distinct
  shared ht hid := (hs.shared ht hid).imp_left has_addContext

theorem addTemplate {x : TemplateState} (hown : x.template.own = s.nextContext)
    (hshared : ∀ id, x.template.shared = some id → s.has id = true) :
    (s.addTemplate x).1.Sound where
  fresh := hs.addContext.fresh
  helpers := hs.addContext.helpers
  own {t} ht := by
    rw [sources_addTemplate] at ht
    rcases List.mem_append.mp ht with ht | ht
    · exact hs.addContext.own ht
    · rw [List.mem_singleton.mp ht]
      exact ⟨s.made, Nat.lt_succ_self _, hown⟩
  distinct := by
    rw [sources_addTemplate, List.map_append, List.map_singleton, List.nodup_append_comm,
      List.singleton_append, List.nodup_cons]
    refine ⟨fun hmem => ?_, hs.distinct⟩
    obtain ⟨t, ht, heq⟩ := List.mem_map.mp hmem
    obtain ⟨index, hindex, htown⟩ := hs.own ht
    rw [htown, hown] at heq
    exact Nat.lt_irrefl s.made (ContextId.made.inj heq ▸ hindex)
  shared {t id} ht hid := by
    rw [sources_addTemplate] at ht
    rcases List.mem_append.mp ht with ht | ht
    · exact hs.addContext.shared ht hid
    · rw [List.mem_singleton.mp ht] at hid ⊢
      refine ⟨has_addContext (hshared id hid), fun h => ?_⟩
      -- the context is the template's own and was there before, which the next one was not
      have hnext := hshared id hid
      rw [h, hown, has_nextContext] at hnext
      cases hnext

theorem onContext {id : ContextId} (hid : s.has id = true) {operation : ContextOperation}
    (hoperation : operation.HelpersPreserve) : (s.onContext id operation).1.Sound := by
  rw [fst_onContext]
  exact {
    fresh := fun {other} hother => by
      have hne : other ≠ id := fun h => by
        subst h
        exact Bool.eq_false_iff.mp hother hid
      simp only [change, Contexts.get_update, if_neg hne]
      exact hs.fresh hother
    helpers := hs.helpers.apply hoperation id
    own := hs.own
    distinct := hs.distinct
    shared := hs.shared }

theorem compile (i : TemplateId) : (s.compile i).Sound where
  fresh := hs.fresh
  helpers := hs.helpers
  own ht := hs.own (s.sources_compile i ▸ ht)
  distinct := (s.sources_compile i).symm ▸ hs.distinct
  shared ht := hs.shared (s.sources_compile i ▸ ht)

theorem onTemplate (i : TemplateId) (operation : TemplateOperation) :
    (s.onTemplate i operation).1.Sound := by
  rw [fst_onTemplate hs.helpers]
  split
  · exact hs.compile i
  · exact hs

/-- Every operation leads from a sound session to a sound one. -/
theorem step {operation : Operation} (hoperation : operation.HelpersPreserve) :
    (s.step operation).1.Sound := by
  cases operation with
  | makeContext => exact hs.addContext
  | makeTemplate source shared options =>
    rw [Session.step]
    split
    next h =>
      refine hs.addTemplate rfl fun id hid => ?_
      rwa [show shared = some id from hid] at h
    next => exact hs
  | loadTemplate document =>
    rw [Session.step]
    split
    next t ht =>
      obtain ⟨hown, hshared⟩ := Template.contexts_of_ofJson ht
      refine hs.addTemplate hown fun id hid => ?_
      cases hshared.symm.trans hid
    next => exact hs
  | onContext id operation =>
    rw [Session.step]
    split
    next hid => exact hs.onContext hid hoperation
    next => exact hs
  | onTemplate i operation => exact hs.onTemplate i operation

theorem runAll {operations : List Operation}
    (h : ∀ operation ∈ operations, operation.HelpersPreserve) :
    (s.runAll operations).1.Sound := by
  induction operations generalizing s with
  | nil => exact hs
  | cons operation rest ih =>
    exact ih (hs.step (h operation (by simp))) fun other hother => h other (by simp [hother])

end Sound

/-! What contexts hold after a run. -/

/-- The operation on the context `id` that an operation is, if there is that context. -/
def on? (s : Session) (id : ContextId) : Operation → Option ContextOperation
  | .onContext other operation => if other = id ∧ s.has id then some operation else none
  | .makeContext | .makeTemplate .. | .loadTemplate _ | .onTemplate .. => none

/-- The operations of a run on the context `id`, each with all contexts as it found them. -/
def operationsOn (id : ContextId) : Session → List Operation → List (Contexts × ContextOperation)
  | _, [] => []
  | s, operation :: rest =>
    (s.on? id operation).toList.map (s.contexts, ·) ++ (s.step operation).1.operationsOn id rest

/-- The changes that a run makes to the helpers of a context. -/
def helperLog (s : Session) (id : ContextId) (operations : List Operation) : List (Change Helper) :=
  (s.operationsOn id operations).flatMap (·.2.helperChanges)

/-- The changes that a run makes to the partials of a context. -/
def partialLog (s : Session) (id : ContextId) (operations : List Operation) :
    List (Change Partial) :=
  (s.operationsOn id operations).flatMap fun found => found.2.partialChanges found.1

/-- The delegates that a run sets in a context, in order. -/
def delegateLog (s : Session) (id : ContextId) (operations : List Operation) :
    List (Option Delegate) :=
  (s.operationsOn id operations).flatMap (·.2.delegates)

/-- Only operations on a context change what it holds. -/
theorem get_step (hs : s.Sound) (id : ContextId) (operation : Operation) :
    (s.step operation).1.contexts.get id =
      match s.on? id operation with
      | some found => found.apply s.contexts (s.contexts.get id)
      | none => s.contexts.get id := by
  cases operation with
  | makeContext => exact congrArg (·.get id) hs.contexts_addContext
  | makeTemplate source shared options =>
    rw [step]
    split
    · exact congrArg (·.get id) hs.contexts_addContext
    · rfl
  | loadTemplate document =>
    rw [step]
    split
    · exact congrArg (·.get id) hs.contexts_addContext
    · rfl
  | onContext other operation =>
    rw [step, on?]
    by_cases hother : other = id
    · subst hother
      by_cases hhas : s.has other = true
      · simp [hhas, fst_onContext, change]
      · simp [hhas]
    · split
      · simp [hother, fst_onContext, change, Ne.symm hother]
      · simp [hother]
  | onTemplate i operation =>
    rw [step, fst_onTemplate hs.helpers]
    split <;> rfl

theorem foldl_apply (log : List (Contexts × ContextOperation)) (c : ExecutionContext) :
    log.foldl (fun c found => found.2.apply found.1 c) c =
      { helpers := c.helpers.changeAll (log.flatMap (·.2.helperChanges))
        partials := c.partials.changeAll (log.flatMap fun found => found.2.partialChanges found.1)
        delegate := (log.flatMap (·.2.delegates)).getLast?.getD c.delegate } := by
  induction log generalizing c with
  | nil => rfl
  | cons found rest ih =>
    rw [List.foldl_cons, ih]
    simp [ContextOperation.apply, List.getLast?_append]

/-- A context holds what the changes of a run made of it. -/
theorem get_runAll (hs : s.Sound) (id : ContextId) {operations : List Operation}
    (h : ∀ operation ∈ operations, operation.HelpersPreserve) :
    (s.runAll operations).1.contexts.get id =
      { helpers := (s.contexts.get id).helpers.changeAll (s.helperLog id operations)
        partials := (s.contexts.get id).partials.changeAll (s.partialLog id operations)
        delegate := (s.delegateLog id operations).getLast?.getD (s.contexts.get id).delegate } := by
  rw [helperLog, partialLog, delegateLog, ← foldl_apply]
  induction operations generalizing s with
  | nil => rfl
  | cons operation rest ih =>
    have hstep := hs.step (h operation (by simp))
    have hrest := ih hstep fun other hother => h other (by simp [hother])
    rw [operationsOn, List.foldl_append]
    refine hrest.trans (congrArg (List.foldl _ · _) ?_)
    rw [get_step hs]
    cases s.on? id operation <;> rfl

end Session
end Stencil
