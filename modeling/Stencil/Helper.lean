import Stencil.Error
import Stencil.Scope

/-!
Helpers: what a template calls by name. A helper sees a call and answers with an action, a tree of
requests to the rendering that ends in a text or an error. So a helper can render the sections of
its block as often as it likes, in any scope, but reaches the rendering in no other way.
-/
namespace Stencil

/-- The two sections of a block. -/
inductive Section where
  | main
  | inverse
  deriving DecidableEq, Repr, Inhabited

/-- Whether a helper was called by a tag or by a block. -/
inductive CallKind where
  | expression
  | block
  deriving DecidableEq, Repr, Inhabited

/-- A call of a helper, with its parameters evaluated; what a parameter does not lead to is null.
`context` and `data` are those of the scope around the call. -/
structure Call where
  name : String
  kind : CallKind
  context : Value
  data : PrivateData
  params : List Value
  named : List (String × Value)
  mainEmpty : Bool
  inverseEmpty : Bool
  deriving Inhabited

namespace Call

/-- The positional parameter of a number, counted from zero. -/
def param? (call : Call) (i : Nat) : Option Value := call.params[i]?

/-- The text of a positional parameter, empty if there is none. -/
def paramText (call : Call) (i : Nat) : String := (call.param? i).elim "" Value.text

/-- The named parameter of a name. -/
def named? (call : Call) (name : String) : Option Value := call.named.lookup name

/-- The error of a call that fails for a reason of its own. -/
def error (call : Call) (message : String) : RenderError := .helper call.name message

end Call

/-- An execution context: the one that every template sees, one that was made, or the one that a
stand-alone template gets while a helper has it rendered, one for each level of such renderings. -/
inductive ContextId where
  | global
  | made (index : Nat)
  | scratch (level : Nat)
  deriving DecidableEq, Repr, Inhabited

/-- The questions that a delegate may answer. -/
inductive Hook where
  | helper
  | partialBody
  | partialSource
  | translation
  | escape
  deriving DecidableEq, Repr, Inhabited

inductive LogLevel where
  | trace
  | debug
  | info
  | warn
  | error
  deriving DecidableEq, Repr, Inhabited

/-- What an application can observe of a rendering besides its result. -/
inductive Event where
  | read (field : FieldRead)
  | asked (context : ContextId) (delegate : Option String) (hook : Hook) (subject : String)
  | logged (level : LogLevel) (message : String)
  | called (call : Call)

/-- What a helper does: it ends, or makes a request and goes on with the answer.
* `render`: a section of the block, in a scope inside the one around the call.
* `access`: a key of a value.
* `localize`, `escape`: a text, as the template that is rendered has it.
* `note`: an event for the application.
* `definePartial`, `defineHelper`: an entry of the template's own context.
* `renderText`: a text as a template of its own, in the scope of a value alone. -/
inductive Action where
  | done (outcome : Except RenderError String)
  | render (which : Section) (context : Value) (data : PrivateData)
      (resume : Except RenderError String → Action)
  | access (target : Value) (key : String)
      (resume : Except HostAccessError (Option Value) → Action)
  | localize (text : String) (resume : String → Action)
  | escape (raw : String) (resume : String → Action)
  | note (event : Event) (next : Action)
  | definePartial (name source : String) (resume : Except ParseError Unit → Action)
  | defineHelper (name : String) (helper : Call → Action) (next : Action)
  | renderText (source : String) (context : Value) (resume : Except RenderError String → Action)

instance : Inhabited Action := ⟨.done (.ok "")⟩

abbrev Helper := Call → Action

namespace Action

/-- Ends with a text. -/
def text (s : String) : Action := .done (.ok s)

/-- Ends with an error. -/
def fail (e : RenderError) : Action := .done (.error e)

/-- Goes on with the text of a section, or ends with its error. -/
def renderThen (which : Section) (context : Value) (data : PrivateData) (next : String → Action) :
    Action :=
  .render which context data fun
    | .ok s => next s
    | .error e => fail e

/-- A section in the scope of the call, as its own result. -/
def branch (call : Call) (which : Section) : Action :=
  renderThen which call.context call.data text

/-- A section once for every one of `scopes` in order; the texts follow `before`. -/
def renderEach (which : Section) : List (Value × PrivateData) → String → Action
  | [], before => text before
  | (context, data) :: rest, before =>
    renderThen which context data fun s => renderEach which rest (before ++ s)

end Action
end Stencil
