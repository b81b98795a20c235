import Stencil.Template

/-!
Rendering of templates. The recursion goes down the program; a partial starts it anew on another
program, which the options allow only so many times inside one another, and so does a helper that
renders a text as a template of its own. Each of the three is a recursion of its own, the inner ones
given to the outer ones as parameters, so that every rendering ends.
-/
namespace Stencil

namespace Render

/-- The value of an expression in a scope, if it leads to one. -/
def evaluate? (scope : Scope) : Expression → Render (Option Value)
  | .path p => reading (scope.resolve p.steps)
  | .string s => return some (.string s)
  | .numeral n => return some (if n.isBoolean then .bool n.value.isPositive else .number n.value)

/-- The value of an expression in a scope; an expression that leads nowhere is null. -/
def evaluate (scope : Scope) (e : Expression) : Render Value :=
  return (← evaluate? scope e).getD .null

/-- The values of expressions, in order. -/
def evaluateAll (scope : Scope) : List Expression → Render (List Value)
  | [] => return []
  | e :: rest => return (← evaluate scope e) :: (← evaluateAll scope rest)

/-- The values of named expressions, in order. -/
def evaluateNamed (scope : Scope) : List (String × Expression) → Render (List (String × Value))
  | [] => return []
  | (name, e) :: rest => return (name, ← evaluate scope e) :: (← evaluateNamed scope rest)

end Render

/-- The means that an action has: rendering a section in a scope inside the one around the call, and
rendering a text as a template of its own. -/
structure Means where
  template : Template
  inSection : Section → Value → PrivateData → Render String
  standAlone : String → Value → Render String

/-- Carries out an action. -/
def Action.perform (means : Means) : Action → Render String
  | .done outcome => Render.ofExcept outcome
  | .render which context data resume => do
    (resume (← (means.inSection which context data).attempt)).perform means
  | .access target key resume => do
    (resume (← Render.attemptReading (target.access key))).perform means
  | .localize text resume => do (resume (← means.template.localize text)).perform means
  | .escape raw resume => do (resume (← means.template.escape raw)).perform means
  | .note event next => do
    Render.note event
    next.perform means
  | .definePartial name source resume =>
    match Partial.compile source with
    | .ok p => do
      Render.update means.template.own (·.insertPartial name p)
      (resume (.ok ())).perform means
    | .error e => (resume (.error e)).perform means
  | .defineHelper name helper next => do
    Render.update means.template.own (·.registerHelper name helper)
    next.perform means
  | .renderText source context resume => do
    (resume (← (means.standAlone source context).attempt)).perform means

/-- How the statements of one program are rendered: the template, stand-alone texts, and the
programs of partials, which are missing where no further partial may be entered. -/
structure Renderer where
  template : Template
  standAlone : String → Value → Render String
  enter? : Option (Program → Scope → Render String)

namespace Renderer

variable (r : Renderer)

/-- Calls a helper. The parameters are evaluated first, then the named ones. -/
def invoke (scope : Scope) (name : String) (helper : Helper) (kind : CallKind)
    (arguments : Arguments) (mainEmpty inverseEmpty : Bool)
    (inSection : Section → Value → PrivateData → Render String) : Render String := do
  let params ← Render.evaluateAll scope arguments.positional
  let named ← Render.evaluateNamed scope arguments.named.entries
  let call : Call :=
    { name, kind, params, named, mainEmpty, inverseEmpty
      context := scope.value
      data := scope.data }
  (helper call).perform ⟨r.template, inSection, r.standAlone⟩

/-- The helper that the head of a tag or block names, with its name. -/
def headHelper? (path? : Option Path) : Render (Option (String × Helper)) := do
  match path?.bind Path.helperName? with
  | none => return none
  | some name => return (← r.template.helper? name).map (name, ·)

/-- The program without statements, rendered in a scope. -/
def emptyProgram (_scope : Scope) : Render String := return ""

/-- The text of a tag before escaping: the result of the helper that it names, else its value. Both
sections of a tag are empty, and rendered like those of a block in a scope inside the one around the
call. -/
def tagText (scope : Scope) (head : Expression) (arguments : Arguments) : Render String := do
  match ← r.headHelper? head.asPath? with
  | some (name, helper) =>
    r.invoke scope name helper .expression arguments true true fun _ context data =>
      emptyProgram (scope.child context data)
  | none =>
    if arguments.isEmpty then return (← Render.evaluate? scope head).elim "" Value.text
    else Render.fail (.missingHelper head.source)

/-- A tag. -/
def tag (scope : Scope) (head : Expression) (arguments : Arguments) (escaped : Bool) :
    Render String := do
  let text ← r.tagText scope head arguments
  if escaped then r.template.escape text else return text

/-- An insertion of a partial. Only a context opens a scope for it; its named parameters are private
data. -/
def insertion (scope : Scope) (name : String) (context : Option Expression) (named : NamedParams) :
    Render String := do
  match ← r.template.partial? name with
  | none => Render.fail (.missingPartial name)
  | some p =>
    match r.enter? with
    | none => Render.fail (.recursionLimit name r.template.options.partialLimit)
    | some enter =>
      let data := scope.data.insertAll (← Render.evaluateNamed scope named.entries)
      match context with
      | some e => enter p.program (scope.child (← Render.evaluate scope e) data)
      | none => enter p.program (scope.withData data)

mutual
/-- One statement in a scope. -/
def statement (scope : Scope) : Statement → Render String
  | .raw text => return text
  | .comment _ => return ""
  | .tag head arguments escaped => r.tag scope head arguments escaped
  | .insertion name context named => r.insertion scope name context named
  | .block path arguments main inverse => do
    match ← r.headHelper? (some path) with
    | some (name, helper) =>
      r.invoke scope name helper .block arguments main.isEmpty inverse.isEmpty fun
        | .main, context, data => program (scope.child context data) main
        | .inverse, context, data => program (scope.child context data) inverse
    | none => Render.fail (.missingHelper path.source)

/-- The statements of a program in a scope, in order. -/
def program (scope : Scope) : Program → Render String
  | [] => return ""
  | s :: rest => return (← statement scope s) ++ (← program scope rest)
end

theorem program_nil (scope : Scope) : r.program scope [] = emptyProgram scope := rfl

end Renderer

/-- Renders a program inside partials, when `room` more may be entered. -/
def renderProgram (t : Template) (standAlone : String → Value → Render String) :
    Nat → Program → Scope → Render String
  | 0, p, scope => Renderer.program ⟨t, standAlone, none⟩ scope p
  | room + 1, p, scope =>
    Renderer.program ⟨t, standAlone, some (renderProgram t standAlone room)⟩ scope p

namespace Template

/-- Renders a template for a value, where helpers render texts with `standAlone`. -/
def renderWith (t : Template) (standAlone : String → Value → Render String) (context : Value) :
    Render String :=
  match parse t.source with
  | .ok p => renderProgram t standAlone t.options.partialLimit p (.root context)
  | .error e => Render.fail (.parse e)

/-- How many stand-alone templates may be rendered inside one another. The template language has no
such limit: it is one of this library, which makes every rendering end, and only helpers that have
texts rendered without end can run into it. -/
def standAloneLimit : Nat := 1000

/-- Renders a template for a value, when helpers may have stand-alone templates rendered to a depth
of `level`. -/
def renderLevel : Nat → Template → Value → Render String
  | 0, t, context =>
    t.renderWith (fun source _ => Render.fail (.helper source "rendered too deep")) context
  | level + 1, t, context =>
    t.renderWith (fun source value =>
      Render.inScratch (.scratch level) <|
        renderLevel level { source, own := .scratch level } value) context

/-- Renders a template for a value. -/
def render (t : Template) (context : Value) : Render String :=
  renderLevel standAloneLimit t context

/-- Renders a text as a template of its own, to a depth of `level` such templates. -/
def standAlone : Nat → String → Value → Render String
  | 0, source, _ => Render.fail (.helper source "rendered too deep")
  | level + 1, source, context =>
    Render.inScratch (.scratch level) <|
      renderLevel level { source, own := .scratch level } context

theorem renderLevel_eq (level : Nat) (t : Template) (context : Value) :
    renderLevel level t context = t.renderWith (standAlone level) context := by
  cases level <;> rfl

/-- Renders a template for a value, where `compiled` is what its text was compiled to. -/
def renderCompiled (t : Template) (compiled : Except ParseError Program) (context : Value) :
    Render String :=
  match compiled with
  | .ok p => renderProgram t (standAlone standAloneLimit) t.options.partialLimit p (.root context)
  | .error e => Render.fail (.parse e)

theorem renderCompiled_parse (t : Template) (context : Value) :
    t.renderCompiled (parse t.source) context = t.render context := by
  rw [render, renderLevel_eq, renderWith]
  rfl

/-- Registers texts as partials one by one, up to the first that does not parse. -/
def registerEach (id : ContextId) : List (String × String) → Render Unit
  | [] => return ()
  | (name, source) :: rest =>
    match Partial.compile source with
    | .ok p => do
      Render.update id (·.insertPartial name p)
      registerEach id rest
    | .error e => Render.fail (.invalidPartial name e)

/-- Renders a text for a value as a template of its own, with these helpers and partials. -/
def renderOnce (source : String) (context : Value) (helpers : List (String × Helper))
    (partials : List (String × String)) : Render String :=
  let own := ContextId.scratch standAloneLimit
  Render.inScratch own do
    Render.update own (·.registerHelpers helpers)
    registerEach own partials
    render { source, own } context

end Template
end Stencil
