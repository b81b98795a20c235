import Stencil.Program
import Stencil.Value.Access

/-!
Scopes: the value that a template sees, the private data beside it, and the scopes outside. A path
first climbs by its leading parent steps and never looks further out than that.
-/
namespace Stencil

/-- Private data, read by `@name`. -/
abbrev PrivateData := NameMap Value

/-- One scope without those outside it. -/
structure Level where
  value : Value
  data : PrivateData := ∅
  deriving Inhabited

/-- A scope, with the scopes outside it from the nearest on. -/
structure Scope where
  level : Level
  outer : List Level := []
  deriving Inhabited

namespace Scope

/-- The scope of a whole template. -/
def root (value : Value) (data : PrivateData := ∅) : Scope := ⟨⟨value, data⟩, []⟩

/-- A scope inside `s`. -/
def child (s : Scope) (value : Value) (data : PrivateData) : Scope :=
  ⟨⟨value, data⟩, s.level :: s.outer⟩

/-- The scope `s` with other private data. -/
def withData (s : Scope) (data : PrivateData) : Scope := ⟨⟨s.level.value, data⟩, s.outer⟩

def value (s : Scope) : Value := s.level.value

def data (s : Scope) : PrivateData := s.level.data

/-- The scope `n` steps out, if there are that many. -/
def ancestor? (s : Scope) : Nat → Option Scope
  | 0 => some s
  | n + 1 =>
    match s.outer with
    | [] => none
    | level :: outer => ancestor? ⟨level, outer⟩ n

/-- One step of a path from a value reached so far. Parent steps count only where they lead. -/
def step (level : Level) (current : Value) : PathStep → Reading (Option Value)
  | .this => pure (some current)
  | .parent => pure none
  | .datum name => pure (level.data.get? name)
  | .field name => current.access name

/-- The steps from left to right, up to the first that leads nowhere. -/
def follow (level : Level) (current : Value) : List PathStep → Reading (Option Value)
  | [] => pure (some current)
  | first :: rest => do
    match ← step level current first with
    | some next => follow level next rest
    | none => pure none

/-- What a path stands for in a scope, if anything. -/
def resolve (s : Scope) (steps : List PathStep) : Reading (Option Value) :=
  match s.ancestor? (steps.takeWhile (· == .parent)).length with
  | some t => follow t.level t.value (steps.dropWhile (· == .parent))
  | none => pure none

end Scope
end Stencil
