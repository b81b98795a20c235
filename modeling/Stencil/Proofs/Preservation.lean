import Stencil.Proofs.Alike.Program

/-!
Renderings that leave the contexts as they are. Only helpers change contexts, so a template whose
helpers change none leaves all of them as it found them.
-/
namespace Stencil

namespace Render

variable {α β : Type} {cs : Contexts}

/-- A rendering that leaves the contexts `cs` as they are. -/
def Leaves (cs : Contexts) (m : Render α) : Prop := (m.run cs).contexts = cs

theorem Leaves.of_keeps {m : Render α} (h : m.Keeps cs) : m.Leaves cs := h.contexts

theorem Leaves.ofExcept (r : Except RenderError α) : (ofExcept r).Leaves cs := rfl

theorem Leaves.pure (a : α) : (Pure.pure a : Render α).Leaves cs := rfl

theorem Leaves.attempt {m : Render α} (h : m.Leaves cs) : m.attempt.Leaves cs := h

theorem Leaves.bind {m : Render α} {f : α → Render β} (h : m.Leaves cs)
    (hf : ∀ a, (m.run cs).result = .ok a → (f a).Leaves cs) : (m >>= f).Leaves cs := by
  rw [Leaves] at h ⊢
  cases hr : (m.run cs).result with
  | error e => rw [run_bind_of_error hr, h]
  | ok a =>
    rw [run_bind_of_ok hr, h]
    exact hf a hr

/-- The context of its own that a rendering was given is as before afterwards. -/
theorem Leaves.inScratch {id : ContextId} {m : Render α} (h : m.Leaves (cs.set id {})) :
    (inScratch id m).Leaves cs := by
  have hrestore : (cs.set id {}).set id (cs.get id) = cs := by
    obtain ⟨get⟩ := cs
    simp only [Contexts.set, Contexts.update]
    congr 1
    funext other
    split
    next hid => rw [hid]
    next => rfl
  change ((m.run (cs.set id {})).contexts).set id (cs.get id) = cs
  rw [show (m.run (cs.set id {})).contexts = cs.set id {} from h, hrestore]

end Render

/-- An action that defines nothing. -/
inductive Action.ReadOnly : Action → Prop
  | done (outcome) : ReadOnly (.done outcome)
  | render {which context data resume} : (∀ r, ReadOnly (resume r)) →
      ReadOnly (.render which context data resume)
  | access {target key resume} : (∀ r, ReadOnly (resume r)) → ReadOnly (.access target key resume)
  | localize {text resume} : (∀ r, ReadOnly (resume r)) → ReadOnly (.localize text resume)
  | escape {raw resume} : (∀ r, ReadOnly (resume r)) → ReadOnly (.escape raw resume)
  | note {event next} : ReadOnly next → ReadOnly (.note event next)
  | renderText {source context resume} : (∀ r, ReadOnly (resume r)) →
      ReadOnly (.renderText source context resume)

/-- Means that leave the contexts `cs` as they are. -/
structure Means.Leave (means : Means) (cs : Contexts) : Prop where
  inSection (which : Section) (v : Value) (d : PrivateData) : (means.inSection which v d).Leaves cs
  standAlone (source : String) (v : Value) : (means.standAlone source v).Leaves cs

/-- A helper that changes no context, unless what it has rendered does. -/
def Helper.Preserves (helper : Helper) : Prop :=
  ∀ (call : Call) (means : Means) (cs : Contexts), means.Leave cs →
    ((helper call).perform means).Leaves cs

/-- No helper that is registered, or that a delegate supplies, changes a context. -/
structure Contexts.HelpersPreserve (cs : Contexts) : Prop where
  registered {id : ContextId} {name : String} {helper : Helper} :
    (cs.get id).helpers.get? name = some helper → helper.Preserves
  supplied {id : ContextId} {delegate : Delegate} {name : String} {helper : Helper} :
    (cs.get id).delegate = some delegate → delegate.helper? name = some helper → helper.Preserves

theorem Contexts.helpersPreserve_empty : Contexts.empty.HelpersPreserve where
  registered hfound := by simp [empty] at hfound
  supplied hdelegate := by cases hdelegate

theorem Contexts.HelpersPreserve.registerHelper {cs : Contexts} (h : cs.HelpersPreserve)
    {helper : Helper} (hh : helper.Preserves) (id : ContextId) (name : String) :
    (cs.update id (·.registerHelper name helper)).HelpersPreserve where
  registered {other key found} hfound := by
    rw [Contexts.get_update] at hfound
    split at hfound
    · rw [ExecutionContext.registerHelper, NameMap.get?_insert] at hfound
      split at hfound
      · cases hfound
        exact hh
      · exact h.registered hfound
    · exact h.registered hfound
  supplied {other delegate key found} hdelegate hfound := by
    rw [Contexts.get_update] at hdelegate
    split at hdelegate
    · exact h.supplied hdelegate hfound
    · exact h.supplied hdelegate hfound

theorem Contexts.HelpersPreserve.set {cs : Contexts} (h : cs.HelpersPreserve) (id : ContextId) :
    (cs.set id {}).HelpersPreserve where
  registered {other name helper} hfound := by
    rw [Contexts.set, Contexts.get_update] at hfound
    split at hfound
    · simp at hfound
    · exact h.registered hfound
  supplied {other delegate name helper} hdelegate hfound := by
    rw [Contexts.set, Contexts.get_update] at hdelegate
    split at hdelegate
    · cases hdelegate
    · exact h.supplied hdelegate hfound

/-! Helpers. -/

theorem Action.ReadOnly.leaves {action : Action} (h : action.ReadOnly) {means : Means}
    {cs : Contexts} (hm : means.Leave cs) : (action.perform means).Leaves cs := by
  induction h with
  | done outcome => exact .ofExcept outcome
  | render _ ih => exact (hm.inSection _ _ _).attempt.bind fun r _ => ih r
  | access _ ih => exact Render.Leaves.bind rfl fun r _ => ih r
  | localize _ ih => exact .bind (.of_keeps (means.template.keeps_localize _)) fun r _ => ih r
  | escape _ ih => exact .bind (.of_keeps (means.template.keeps_escape _)) fun r _ => ih r
  | note _ ih => exact Render.Leaves.bind rfl fun _ _ => ih
  | renderText _ ih => exact (hm.standAlone _ _).attempt.bind fun r _ => ih r

theorem Helper.preserves_of_readOnly {helper : Helper} (h : ∀ call, (helper call).ReadOnly) :
    helper.Preserves := fun call _ _ hm => (h call).leaves hm

namespace Action

theorem readOnly_renderThen {which : Section} {v : Value} {d : PrivateData} {next : String → Action}
    (h : ∀ s, (next s).ReadOnly) : (renderThen which v d next).ReadOnly := by
  refine .render fun r => ?_
  cases r with
  | ok s => exact h s
  | error e => exact .done _

theorem readOnly_branch (call : Call) (which : Section) : (branch call which).ReadOnly :=
  readOnly_renderThen fun _ => .done _

theorem readOnly_renderEach (which : Section) (scopes : List (Value × PrivateData))
    (before : String) : (renderEach which scopes before).ReadOnly := by
  induction scopes generalizing before with
  | nil => exact .done _
  | cons scope rest ih => exact readOnly_renderThen fun s => ih (before ++ s)

end Action

theorem Builtin.readOnly_each (call : Call) : (eachHelper call).ReadOnly := by
  simp only [eachHelper]
  split
  · exact Action.readOnly_renderEach _ _ _
  · split
    · exact Action.readOnly_renderEach _ _ _
    · exact Action.readOnly_branch _ _

theorem Builtin.readOnly_with (call : Call) : (withHelper call).ReadOnly := by
  simp only [withHelper]
  split
  · exact Action.readOnly_renderThen fun _ => .done _
  · exact Action.readOnly_branch _ _

theorem Builtin.readOnly_lookup (call : Call) : (lookupHelper call).ReadOnly := by
  simp only [lookupHelper]
  split
  · refine .access fun r => ?_
    cases r <;> exact .done _
  · exact .done _

/-- The helpers of every template change no context. -/
theorem preserves_builtin {name : String} {helper : Helper} (h : builtin? name = some helper) :
    helper.Preserves := by
  apply Helper.preserves_of_readOnly
  intro call
  cases name, helper, h using builtin?_cases with
  | each => exact Builtin.readOnly_each call
  | ifHelper => exact Action.readOnly_branch _ _
  | localize => exact .localize fun _ => .done _
  | log => exact .note (.done _)
  | lookup => exact Builtin.readOnly_lookup call
  | unlessHelper => exact Action.readOnly_branch _ _
  | withHelper => exact Builtin.readOnly_with call

/-! What the name of a helper stands for. -/

section
variable {cs : Contexts}

theorem result_bind_eq_ok {α β : Type} {m : Render α} (hm : m.Keeps cs) {f : α → Render β} {b : β}
    (h : ((m >>= f).run cs).result = .ok b) :
    ∃ a, (m.run cs).result = .ok a ∧ ((f a).run cs).result = .ok b := by
  rw [Render.result_bind hm] at h
  cases hr : (m.run cs).result with
  | error e =>
    rw [hr] at h
    cases h
  | ok a =>
    rw [hr] at h
    exact ⟨a, rfl, h⟩

theorem Contexts.HelpersPreserve.of_context (h : cs.HelpersPreserve) {id : ContextId}
    {name : String} {helper : Helper} (hfound : (cs.get id).helper? name = some helper) :
    helper.Preserves := by
  rcases Option.or_eq_some_iff.mp hfound with hregistered | ⟨-, hsupplied⟩
  · exact h.registered hregistered
  · obtain ⟨delegate, hdelegate, hhelper⟩ := Option.bind_eq_some_iff.mp hsupplied
    exact h.supplied hdelegate hhelper

theorem Contexts.HelpersPreserve.of_helper? (h : cs.HelpersPreserve) {t : Template} {name : String}
    {helper : Helper} (hfound : ((t.helper? name).run cs).result = .ok (some helper)) :
    helper.Preserves := by
  rw [t.run_helper? cs] at hfound
  rcases Option.or_eq_some_iff.mp (Except.ok.inj hfound) with hfirst | ⟨-, hbuiltin⟩
  · obtain ⟨id, -, hid⟩ := List.exists_of_findSome?_eq_some hfirst
    exact h.of_context hid
  · exact preserves_builtin hbuiltin

end

/-! Programs. -/

namespace Renderer

theorem keeps_headHelper? (r : Renderer) (cs : Contexts) (path? : Option Path) :
    (r.headHelper? path?).Keeps cs := by
  unfold headHelper?
  split
  · exact .pure _
  · exact (r.template.keeps_helper? _).bind fun _ _ => .pure _

theorem of_headHelper? {r : Renderer} {cs : Contexts} {path? : Option Path} {name : String}
    {helper : Helper} (h : ((r.headHelper? path?).run cs).result = .ok (some (name, helper))) :
    path?.bind Path.helperName? = some name ∧
      ((r.template.helper? name).run cs).result = .ok (some helper) := by
  unfold headHelper? at h
  split at h
  · cases h
  next given hgiven =>
    obtain ⟨found, hfound, h⟩ := result_bind_eq_ok (r.template.keeps_helper? given) h
    cases found with
    | none => cases h
    | some found =>
      cases h
      exact ⟨hgiven, hfound⟩

theorem preserves_of_headHelper? (r : Renderer) {cs : Contexts} (hcs : cs.HelpersPreserve)
    {path? : Option Path} {name : String} {helper : Helper}
    (h : ((r.headHelper? path?).run cs).result = .ok (some (name, helper))) :
    helper.Preserves :=
  hcs.of_helper? (of_headHelper? h).2

/-- Parts of a renderer that leave the contexts `cs` as they are. -/
structure Leaves (r : Renderer) (cs : Contexts) : Prop where
  standAlone (source : String) (v : Value) : (r.standAlone source v).Leaves cs
  enter : ∀ enter ∈ r.enter?, ∀ p s, (enter p s).Leaves cs

section
variable {r : Renderer} {cs : Contexts} (hcs : cs.HelpersPreserve) (hr : r.Leaves cs)
include hr

theorem leaves_invoke {helper : Helper} (hh : helper.Preserves) (scope : Scope) (name : String)
    (kind : CallKind) (arguments : Arguments) (mainEmpty inverseEmpty : Bool)
    {inSection : Section → Value → PrivateData → Render String}
    (hsection : ∀ which v d, (inSection which v d).Leaves cs) :
    (r.invoke scope name helper kind arguments mainEmpty inverseEmpty inSection).Leaves cs := by
  refine .bind (.of_keeps (Render.keeps_evaluateAll _ _ _)) fun params _ => ?_
  refine .bind (.of_keeps (Render.keeps_evaluateNamed _ _ _)) fun named _ => ?_
  exact hh _ _ cs ⟨hsection, hr.standAlone⟩

theorem leaves_insertion (scope : Scope) (name : String) (context : Option Expression)
    (named : NamedParams) : (r.insertion scope name context named).Leaves cs := by
  refine .bind (.of_keeps (r.template.keeps_partial? name)) fun found _ => ?_
  cases found with
  | none => exact .ofExcept _
  | some b =>
    cases henter : r.enter? with
    | none => exact .ofExcept _
    | some enter =>
      have hbody := hr.enter enter henter
      refine .bind (.of_keeps (Render.keeps_evaluateNamed _ _ _)) fun entries _ => ?_
      cases context with
      | none => exact hbody _ _
      | some e => exact .bind (.of_keeps (Render.keeps_evaluate _ _ cs)) fun v _ => hbody _ _

include hcs

theorem leaves_tag (scope : Scope) (head : Expression) (arguments : Arguments) (escaped : Bool) :
    (r.tag scope head arguments escaped).Leaves cs := by
  have hhead : (r.headHelper? head.asPath?).Leaves cs := .of_keeps (r.keeps_headHelper? cs _)
  refine .bind (hhead.bind fun found hfound => ?_) fun text _ => ?_
  · cases found with
    | some entry =>
      exact leaves_invoke hr (r.preserves_of_headHelper? hcs hfound) scope _ _ _ _ _
        fun _ _ _ => .pure _
    | none =>
      dsimp only
      split
      · exact .bind (.of_keeps (Render.keeps_evaluate? _ _ cs)) fun _ _ => .pure _
      · exact .ofExcept _
  · split
    · exact .of_keeps (r.template.keeps_escape text)
    · exact .pure _

theorem leaves_program (scope : Scope) (p : Program) : (r.program scope p).Leaves cs := by
  induction p using Program.induct generalizing scope with
  | nil => exact .pure _
  | cons s rest ihs ihrest =>
    refine .bind ?_ fun _ _ => (ihrest scope).bind fun _ _ => .pure _
    cases s with
    | raw text => exact .pure _
    | comment text => exact .pure _
    | tag head arguments escaped => exact leaves_tag hcs hr scope head arguments escaped
    | insertion name context named => exact leaves_insertion hr scope name context named
    | block path arguments main inverse =>
      obtain ⟨ihmain, ihinverse⟩ := ihs path arguments main inverse rfl
      rw [statement]
      refine .bind (.of_keeps (r.keeps_headHelper? cs _)) fun found hfound => ?_
      cases found with
      | none => exact .ofExcept _
      | some entry =>
        refine leaves_invoke hr (r.preserves_of_headHelper? hcs hfound) scope _ _ _ _ _
          fun which v d => ?_
        cases which with
        | main => exact ihmain _
        | inverse => exact ihinverse _

end

end Renderer

/-! Templates. -/

section
variable {cs : Contexts} {t : Template} {f : String → Value → Render String}

theorem leaves_renderProgram (hcs : cs.HelpersPreserve) (hf : ∀ source v, (f source v).Leaves cs)
    (room : Nat) (p : Program) (scope : Scope) :
    (renderProgram t f room p scope).Leaves cs := by
  induction room generalizing p scope with
  | zero => exact Renderer.leaves_program (r := ⟨t, f, none⟩) hcs ⟨hf, nofun⟩ scope p
  | succ room ih =>
    refine Renderer.leaves_program (r := ⟨t, f, some (renderProgram t f room)⟩) hcs ⟨hf, ?_⟩ scope p
    intro enter henter
    cases henter
    exact ih

theorem Template.leaves_renderWith (hcs : cs.HelpersPreserve)
    (hf : ∀ source v, (f source v).Leaves cs) (context : Value) :
    (t.renderWith f context).Leaves cs := by
  rw [renderWith]
  split
  · exact leaves_renderProgram hcs hf _ _ _
  · exact .ofExcept _

/-- A template whose helpers change no context leaves all contexts as they are. -/
theorem Template.leaves_render (hcs : cs.HelpersPreserve) (t : Template) (context : Value) :
    (t.render context).Leaves cs := by
  have hlevel (level : Nat) : ∀ (ds : Contexts), ds.HelpersPreserve → ∀ (t : Template) (v : Value),
      (renderLevel level t v).Leaves ds := by
    induction level with
    | zero => exact fun ds hds t v => leaves_renderWith hds (fun _ _ => .ofExcept _) v
    | succ level ih =>
      exact fun ds hds t v => leaves_renderWith hds
        (fun source w => (ih _ (hds.set _) _ w).inScratch) v
  exact hlevel standAloneLimit cs hcs t context

end

end Stencil
