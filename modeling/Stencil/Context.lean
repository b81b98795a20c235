import Stencil.Helper
import Stencil.Source.Block
import Stencil.Text.Quoted

/-!
Execution contexts: the helpers and partials that were registered, and a delegate that may supply
more. A partial is a template text that parses.
-/
namespace Stencil

/-- A partial: a text with its program. -/
structure Partial where
  source : String
  program : Program
  parses : parse source = .ok program

/-- The partial of a text that parses. -/
def Partial.compile (source : String) : Except ParseError Partial :=
  match h : parse source with
  | .ok program => .ok ⟨source, program, h⟩
  | .error e => .error e

theorem Partial.compile_source (p : Partial) : Partial.compile p.source = .ok p := by
  obtain ⟨source, program, h⟩ := p
  simp only [compile]
  split
  next q hq => simp only [h, Except.ok.injEq] at hq; subst hq; rfl
  next e he => rw [h] at he; cases he

/-- An application that supplies entries on demand. A hook without an answer declines. -/
structure Delegate where
  label : Option String := none
  helper? : String → Option Helper := fun _ => none
  partial? : String → Option Partial := fun _ => none
  partialSource? : String → Option String := fun _ => none
  translation? : String → Option String := fun _ => none
  /-- The text escaped for a format. -/
  escaped? : String → String → Option String := fun _ _ => none

structure ExecutionContext where
  helpers : NameMap Helper := ∅
  partials : NameMap Partial := ∅
  delegate : Option Delegate := none

instance : Inhabited ExecutionContext := ⟨{}⟩

/-- A description of a registry for developers. -/
def describeRegistry (kind : String) (names : List String) : String :=
  "Registry \x7b kind: " ++ quoted kind ++ ", names: [" ++ ", ".intercalate (names.map quoted) ++
    "] \x7d"

/-- A description of a context for developers. -/
def ExecutionContext.describe (c : ExecutionContext) : String :=
  "ExecutionContext \x7b helpers: " ++ describeRegistry "helper" c.helpers.names ++
    ", partials: " ++ describeRegistry "partial" c.partials.names ++
    ", has_delegate: " ++ (if c.delegate.isSome then "true" else "false") ++ " \x7d"

/-- The partials of a list of texts, or the error of the first that does not parse. -/
def compileAll : List (String × String) → Except ParseError (List (String × Partial))
  | [] => .ok []
  | (name, source) :: rest => do
    let p ← Partial.compile source
    return (name, p) :: (← compileAll rest)

namespace ExecutionContext

def registerHelper (c : ExecutionContext) (name : String) (helper : Helper) : ExecutionContext :=
  { c with helpers := c.helpers.insert name helper }

def registerHelpers (c : ExecutionContext) (helpers : List (String × Helper)) : ExecutionContext :=
  { c with helpers := c.helpers.insertAll helpers }

def unregisterHelper (c : ExecutionContext) (name : String) : ExecutionContext :=
  { c with helpers := c.helpers.erase name }

def insertPartial (c : ExecutionContext) (name : String) (p : Partial) : ExecutionContext :=
  { c with partials := c.partials.insert name p }

/-- Registers a text as a partial, if it parses. -/
def registerPartial (c : ExecutionContext) (name source : String) :
    Except ParseError ExecutionContext :=
  return c.insertPartial name (← Partial.compile source)

/-- Registers a list of texts as partials, if all of them parse. -/
def registerPartials (c : ExecutionContext) (sources : List (String × String)) :
    Except ParseError ExecutionContext :=
  return { c with partials := c.partials.insertAll (← compileAll sources) }

def unregisterPartial (c : ExecutionContext) (name : String) : ExecutionContext :=
  { c with partials := c.partials.erase name }

end ExecutionContext

/-- The state of every context. -/
structure Contexts where
  get : ContextId → ExecutionContext

namespace Contexts

/-- Every context as it is before anything is registered. -/
def empty : Contexts := ⟨fun _ => {}⟩

instance : Inhabited Contexts := ⟨empty⟩

/-- The contexts with that of `id` changed by `f`. -/
def update (cs : Contexts) (id : ContextId) (f : ExecutionContext → ExecutionContext) : Contexts :=
  let changed := f (cs.get id)
  ⟨fun other => if other = id then changed else cs.get other⟩

@[simp] theorem get_update (cs : Contexts) (id other : ContextId)
    (f : ExecutionContext → ExecutionContext) :
    (cs.update id f).get other = if other = id then f (cs.get id) else cs.get other := rfl

/-- The contexts with that of `id` replaced by `c`. -/
def set (cs : Contexts) (id : ContextId) (c : ExecutionContext) : Contexts :=
  cs.update id fun _ => c

end Contexts
end Stencil
