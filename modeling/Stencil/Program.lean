import Stencil.Number

/-!
Templates as programs: a list of statements, which are raw text, comments, tags, partials and
blocks, the last with a main and an inverse section.
-/
namespace Stencil

/-- A step of a path. -/
inductive PathStep where
  /-- The value reached so far, written `this` or `.`. -/
  | this
  /-- The scope outside, written `..`. -/
  | parent
  /-- A private datum, written `@name`. -/
  | datum (name : String)
  | field (name : String)
  deriving DecidableEq, Repr, Inhabited

/-- A path such as `../items.0.name`, with its text as written. -/
structure Path where
  steps : List PathStep
  source : String
  deriving DecidableEq, Repr, Inhabited

/-- The name of a path that is one plain field: only such a path can name a helper. -/
def Path.helperName? (path : Path) : Option String :=
  match path.steps with
  | [.field name] => some name
  | _ => none

/-- A number as written. `true` and `false` are the numbers one and zero, marked as booleans. -/
structure Numeral where
  value : Number
  isBoolean : Bool
  source : String
  deriving BEq, Inhabited

inductive Expression where
  | path (path : Path)
  | string (text : String)
  | numeral (numeral : Numeral)
  deriving BEq, Inhabited

namespace Expression

def asPath? : Expression → Option Path
  | .path p => some p
  | _ => none

/-- The text that an expression was written as; a string counts without its quotes. -/
def source : Expression → String
  | .path p => p.source
  | .string text => text
  | .numeral n => n.source

end Expression

/-- Named parameters, in the order in which their names were first written. -/
structure NamedParams where
  entries : List (String × Expression) := []
  deriving BEq, Inhabited

namespace NamedParams

/-- Replaces the entry of a name in its place. -/
def replace (name : String) (e : Expression) :
    List (String × Expression) → List (String × Expression)
  | [] => []
  | entry :: rest => if entry.1 = name then (name, e) :: rest else entry :: replace name e rest

/-- The parameters with `name` standing for `e`. A repeated name keeps its place. -/
def insert (params : NamedParams) (name : String) (e : Expression) : NamedParams :=
  if params.entries.any (·.1 == name) then ⟨replace name e params.entries⟩
  else ⟨params.entries ++ [(name, e)]⟩

def ofList (pairs : List (String × Expression)) : NamedParams :=
  pairs.foldl (fun params pair => params.insert pair.1 pair.2) {}

def get? (params : NamedParams) (name : String) : Option Expression := params.entries.lookup name

def size (params : NamedParams) : Nat := params.entries.length

def isEmpty (params : NamedParams) : Bool := params.entries.isEmpty

end NamedParams

/-- What follows the head of a tag or block. -/
structure Arguments where
  positional : List Expression := []
  named : NamedParams := {}
  deriving BEq, Inhabited

def Arguments.isEmpty (arguments : Arguments) : Bool :=
  arguments.positional.isEmpty && arguments.named.isEmpty

/-- A part of a template. A section that was not written is an empty list. -/
inductive Statement where
  | raw (text : String)
  | comment (text : String)
  | tag (head : Expression) (arguments : Arguments) (escaped : Bool)
  | insertion (name : String) (context : Option Expression) (named : NamedParams)
  | block (path : Path) (arguments : Arguments) (main inverse : List Statement)
  deriving BEq, Inhabited

abbrev Program := List Statement

end Stencil
