import Stencil.Options
import Stencil.Render
import Stencil.Helper.Builtin
import Stencil.Text.Html

/-!
Templates, and what a name in a template stands for. A name is looked for in the template's own
context, then in the shared one if there is one, then in the global one; in every context first
among what is registered and then with its delegate.
-/
namespace Stencil

/-- A template text with its options and the contexts it resolves names in. -/
structure Template where
  source : String
  options : RenderOptions := {}
  own : ContextId
  shared : Option ContextId := none
  deriving DecidableEq, Repr, Inhabited

namespace ContextId

/-- The answer of a context's delegate to a question, if it has a delegate and that does not
decline. -/
def ask {α : Type} (id : ContextId) (hook : Hook) (subject : String)
    (answer : Delegate → Option α) : Render (Option α) := do
  match (← Render.context id).delegate with
  | none => return none
  | some delegate =>
    Render.note (.asked id delegate.label hook subject)
    return answer delegate

/-- The helper of a name in one context. -/
def helper? (id : ContextId) (name : String) : Render (Option Helper) := do
  match (← Render.context id).helpers.get? name with
  | some helper => return some helper
  | none => id.ask .helper name (·.helper? name)

/-- The partial that a context's delegate supplies as a text, which must parse. -/
def partialFromSource? (id : ContextId) (name : String) : Render (Option Partial) := do
  match ← id.ask .partialSource name (·.partialSource? name) with
  | none => return none
  | some source =>
    match Partial.compile source with
    | .ok p => return some p
    | .error e => Render.fail (.invalidPartial name e)

/-- The partial of a name in one context. -/
def partial? (id : ContextId) (name : String) : Render (Option Partial) := do
  match (← Render.context id).partials.get? name with
  | some p => return some p
  | none =>
    match ← id.ask .partialBody name (·.partial? name) with
    | some p => return some p
    | none => id.partialFromSource? name

/-- The translation of a text in one context. -/
def localize? (id : ContextId) (text : String) : Render (Option String) :=
  id.ask .translation text (·.translation? text)

/-- A text as one context escapes it for a format. -/
def escape? (id : ContextId) (raw format : String) : Render (Option String) :=
  id.ask .escape raw (·.escaped? raw format)

end ContextId

/-- The first answer in a list of contexts; those after it are not asked. -/
def firstAnswer {α : Type} (question : ContextId → Render (Option α)) :
    List ContextId → Render (Option α)
  | [] => return none
  | id :: rest => do
    match ← question id with
    | some a => return some a
    | none => firstAnswer question rest

namespace Template

/-- The contexts that a template resolves names in. The global one comes last, unless it is the
shared one. -/
def chain (t : Template) : List ContextId :=
  t.own :: t.shared.toList ++ if t.shared = some .global then [] else [.global]

/-- The helper of a name. What every template can call comes last. -/
def helper? (t : Template) (name : String) : Render (Option Helper) := do
  match ← firstAnswer (·.helper? name) t.chain with
  | some helper => return some helper
  | none => return builtin? name

/-- The partial of a name. -/
def partial? (t : Template) (name : String) : Render (Option Partial) :=
  firstAnswer (·.partial? name) t.chain

/-- The translation of a text, which is the text itself where no delegate has one. -/
def localize (t : Template) (text : String) : Render String :=
  return (← firstAnswer (·.localize? text) t.chain).getD text

/-- A text escaped for the format of the template, which is HTML where no delegate knows it. -/
def escape (t : Template) (raw : String) : Render String :=
  return (← firstAnswer (·.escape? raw t.options.targetFormat) t.chain).getD (escapeHtml raw)

end Template
end Stencil
