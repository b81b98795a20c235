import Stencil.Template.Json
import Stencil.Template.Render

/-!
Sessions: an application makes contexts and templates, changes what contexts hold, asks what they
hold, and renders. Every operation is one step, with an answer and the events that it made.
-/
namespace Stencil

/-- An operation on one context. -/
inductive ContextOperation where
  | registerHelper (name : String) (helper : Helper)
  | registerHelpers (helpers : List (String × Helper))
  /-- Registers a helper, and tells which one it replaced. -/
  | replaceHelper (name : String) (helper : Helper)
  | unregisterHelper (name : String)
  | unregisterAllHelpers
  | registerPartial (name source : String)
  | registerPartials (sources : List (String × String))
  /-- Registers a text as a partial, and tells which one it replaced. -/
  | replacePartial (name source : String)
  | unregisterPartial (name : String)
  | unregisterAllPartials
  /-- Registers what another context holds under `name` under `target`. -/
  | copyPartial (origin : ContextId) (name target : String)
  | setDelegate (delegate : Option Delegate)
  | contents
  | describe
  | holds (name : String)
  | findHelper (name : String)
  | findPartial (name : String)
  | localize (text : String)
  | escape (text format : String)

/-- An operation on one template. -/
inductive TemplateOperation where
  | findHelper (name : String)
  | findPartial (name : String)
  | localize (text : String)
  | escape (text : String)
  | info
  | compile
  | render (context : Value)

/-- A template of a session is known by how many were made before it. -/
abbrev TemplateId := Nat

inductive Operation where
  | makeContext
  | makeTemplate (source : String) (shared : Option ContextId) (options : RenderOptions)
  /-- Makes a template of its JSON form. -/
  | loadTemplate (document : Json)
  | onContext (id : ContextId) (operation : ContextOperation)
  | onTemplate (id : TemplateId) (operation : TemplateOperation)

/-- What a registry tells of the names that it holds. -/
structure Listing where
  names : List String
  size : Nat
  isEmpty : Bool
  deriving DecidableEq, Repr, Inhabited

def NameMap.listing {α : Type} (m : NameMap α) : Listing := ⟨m.names, m.size, m.isEmpty⟩

/-- What an operation tells. -/
inductive Answer where
  | done
  | flag (value : Bool)
  | count (n : Nat)
  | text (value : String)
  | optionalText (value : Option String)
  | foundHelper (helper : Option Helper)
  | foundPartial (p : Option Partial)
  /-- The entry that was replaced or removed. -/
  | formerHelper (helper : Option Helper)
  | formerPartial (p : Option Partial)
  | contents (helpers partials : Listing) (delegated : Bool)
  | holds (helper partialBody : Bool)
  | context (id : ContextId)
  | template (id : TemplateId)
  | info (template : Template) (compiled : Bool)
  | failed (error : RenderError)
  | refused (fault : TemplateFault)
  /-- There is no such context or template. -/
  | unknown

/-- A template of a session, with what its text was compiled to once that was done. -/
structure TemplateState where
  template : Template
  compiled? : Option (Except ParseError Program) := none
  faithful : ∀ outcome ∈ compiled?, outcome = parse template.source

namespace TemplateState

/-- A template that was not compiled yet. -/
def fresh (t : Template) : TemplateState := ⟨t, none, nofun⟩

/-- What the text of a template is compiled to. It is not compiled a second time. -/
def outcome (x : TemplateState) : Except ParseError Program :=
  match x.compiled? with
  | some outcome => outcome
  | none => parse x.template.source

theorem outcome_eq (x : TemplateState) : x.outcome = parse x.template.source := by
  unfold outcome
  split
  next outcome h => exact x.faithful outcome h
  next => rfl

/-- A template that was compiled. -/
def compile (x : TemplateState) : TemplateState where
  template := x.template
  compiled? := some x.outcome
  faithful _ h := (Option.some.inj h).symm.trans x.outcome_eq

end TemplateState

/-- The state of a session: the contexts, how many of them were made, and the templates. -/
structure Session where
  contexts : Contexts := .empty
  made : Nat := 0
  templates : List TemplateState := []
  deriving Inhabited

/-- The answer to an operation, with its events. -/
structure Reply where
  answer : Answer
  events : List Event := []

/-- The reply that a rendering gives, `answer` being that to its result. -/
def Outcome.reply {α : Type} (outcome : Outcome α) (answer : α → Answer) : Reply where
  answer := match outcome.result with
    | .ok a => answer a
    | .error e => .failed e
  events := outcome.events

namespace Session

/-- Whether there is a context: the global one always, any other once it was made. A stand-alone
template keeps its own to itself. -/
def has (s : Session) : ContextId → Bool
  | .global => true
  | .made index => index < s.made
  | .scratch _ => false

/-- The session with a context changed. -/
def change (s : Session) (id : ContextId) (f : ExecutionContext → ExecutionContext) : Session :=
  { s with contexts := s.contexts.update id f }

/-- The session with a context changed, unless the change fails. -/
def tryChange (s : Session) (id : ContextId) (r : Except ParseError ExecutionContext)
    (answer : Answer) : Session × Reply :=
  match r with
  | .ok c => (s.change id fun _ => c, ⟨answer, []⟩)
  | .error e => (s, ⟨.failed (.parse e), []⟩)

/-- A rendering in the session, with the answer to its result. -/
def perform {α : Type} (s : Session) (m : Render α) (answer : α → Answer) : Session × Reply :=
  let outcome := m.run s.contexts
  ({ s with contexts := outcome.contexts }, outcome.reply answer)

/-- The session after an operation on a context. -/
def onContext (s : Session) (id : ContextId) (operation : ContextOperation) : Session × Reply :=
  let c := s.contexts.get id
  match operation with
  | .registerHelper name helper => (s.change id (·.registerHelper name helper), ⟨.done, []⟩)
  | .registerHelpers helpers => (s.change id (·.registerHelpers helpers), ⟨.done, []⟩)
  | .replaceHelper name helper =>
    (s.change id (·.registerHelper name helper), ⟨.formerHelper (c.helpers.get? name), []⟩)
  | .unregisterHelper name =>
    (s.change id (·.unregisterHelper name), ⟨.formerHelper (c.helpers.get? name), []⟩)
  | .unregisterAllHelpers => (s.change id ({ · with helpers := ∅ }), ⟨.done, []⟩)
  | .registerPartial name source => s.tryChange id (c.registerPartial name source) .done
  | .registerPartials sources => s.tryChange id (c.registerPartials sources) .done
  | .replacePartial name source =>
    s.tryChange id (c.registerPartial name source) (.formerPartial (c.partials.get? name))
  | .unregisterPartial name =>
    (s.change id (·.unregisterPartial name), ⟨.formerPartial (c.partials.get? name), []⟩)
  | .unregisterAllPartials => (s.change id ({ · with partials := ∅ }), ⟨.done, []⟩)
  | .copyPartial origin name target =>
    match (s.contexts.get origin).partials.get? name with
    | some p => (s.change id (·.insertPartial target p), ⟨.flag true, []⟩)
    | none => (s, ⟨.flag false, []⟩)
  | .setDelegate delegate => (s.change id ({ · with delegate }), ⟨.done, []⟩)
  | .contents => (s, ⟨.contents c.helpers.listing c.partials.listing c.delegate.isSome, []⟩)
  | .describe => (s, ⟨.text c.describe, []⟩)
  | .holds name => (s, ⟨.holds (c.helpers.contains name) (c.partials.contains name), []⟩)
  | .findHelper name => s.perform (id.helper? name) .foundHelper
  | .findPartial name => s.perform (id.partial? name) .foundPartial
  | .localize text => s.perform (id.localize? text) .optionalText
  | .escape text format => s.perform (id.escape? text format) .optionalText

/-- The session with a template compiled. -/
def compile (s : Session) (id : TemplateId) : Session :=
  { s with templates := s.templates.modify id TemplateState.compile }

/-- The session after an operation on a template. -/
def onTemplate (s : Session) (id : TemplateId) (operation : TemplateOperation) : Session × Reply :=
  match s.templates[id]? with
  | none => (s, ⟨.unknown, []⟩)
  | some x =>
    match operation with
    | .findHelper name => s.perform (x.template.helper? name) .foundHelper
    | .findPartial name => s.perform (x.template.partial? name) .foundPartial
    | .localize text => s.perform (x.template.localize text) .text
    | .escape text => s.perform (x.template.escape text) .text
    | .info => (s, ⟨.info x.template x.compiled?.isSome, []⟩)
    | .compile =>
      (s.compile id,
        ⟨match x.outcome with
          | .ok p => .count p.length
          | .error e => .failed (.parse e), []⟩)
    | .render context =>
      (s.compile id).perform (x.template.renderCompiled x.outcome context) .text

/-- The identifier of the next context to be made. -/
def nextContext (s : Session) : ContextId := .made s.made

/-- The session with one more context, which is empty. -/
def addContext (s : Session) : Session :=
  { s with contexts := s.contexts.set s.nextContext {}, made := s.made + 1 }

/-- The session with one more template, whose own context is empty. -/
def addTemplate (s : Session) (x : TemplateState) : Session × Reply :=
  ({ s.addContext with templates := s.templates ++ [x] }, ⟨.template s.templates.length, []⟩)

/-- The session after an operation. -/
def step (s : Session) : Operation → Session × Reply
  | .makeContext => (s.addContext, ⟨.context s.nextContext, []⟩)
  | .makeTemplate source shared options =>
    if shared.all s.has then
      s.addTemplate (.fresh { source, options, own := s.nextContext, shared })
    else (s, ⟨.unknown, []⟩)
  | .loadTemplate document =>
    match Template.ofJson document s.nextContext with
    | .ok t => s.addTemplate (TemplateState.fresh t).compile
    | .error fault => (s, ⟨.refused fault, []⟩)
  | .onContext id operation =>
    if s.has id then s.onContext id operation else (s, ⟨.unknown, []⟩)
  | .onTemplate id operation => s.onTemplate id operation

/-- The replies to a list of operations, and the session after them. -/
def runAll (s : Session) : List Operation → Session × List Reply
  | [] => (s, [])
  | operation :: rest =>
    let (s, reply) := s.step operation
    let (s, replies) := s.runAll rest
    (s, reply :: replies)

end Session
end Stencil
