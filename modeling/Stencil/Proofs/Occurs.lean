import Stencil.Template

/-!
Where statements stand. A statement stands in a program inside so many sections of its blocks, and a
program reaches the bodies of the partials that it and they insert.
-/
namespace Stencil

/-- The parent steps at the start of a path. -/
def Path.climbs (path : Path) : Nat := (path.steps.takeWhile (· == .parent)).length

def Arguments.expressions (arguments : Arguments) : List Expression :=
  arguments.positional ++ arguments.named.entries.map (·.2)

/-- The expressions that are evaluated where a statement is rendered. -/
def Statement.expressions : Statement → List Expression
  | .raw _ | .comment _ => []
  | .tag head arguments _ => head :: arguments.expressions
  | .insertion _ context named => context.toList ++ named.entries.map (·.2)
  | .block _ arguments _ _ => arguments.expressions

/-- The name that the head of a tag or block has as the name of a helper. -/
def Statement.helperName? : Statement → Option String
  | .tag head _ _ => head.asPath?.bind Path.helperName?
  | .block path _ _ _ => path.helperName?
  | .raw _ | .comment _ | .insertion .. => none

/-- `s` stands in a program, inside `d` sections of its blocks. -/
inductive Occurs (s : Statement) : Nat → Program → Prop
  | here {rest} : Occurs s 0 (s :: rest)
  | later {d x rest} : Occurs s d rest → Occurs s d (x :: rest)
  | main {d path arguments main inverse rest} : Occurs s d main →
      Occurs s (d + 1) (.block path arguments main inverse :: rest)
  | inverse {d path arguments main inverse rest} : Occurs s d inverse →
      Occurs s (d + 1) (.block path arguments main inverse :: rest)

@[simp] theorem not_occurs_nil (s : Statement) (d : Nat) : ¬ Occurs s d [] := nofun

@[simp] theorem occurs_cons {s x : Statement} {d : Nat} {rest : Program} :
    Occurs s d (x :: rest) ↔ d = 0 ∧ s = x ∨ Occurs s d rest ∨
      ∃ path arguments main inverse d', x = .block path arguments main inverse ∧ d = d' + 1 ∧
        (Occurs s d' main ∨ Occurs s d' inverse) := by
  constructor
  · intro h
    cases h with
    | here => exact .inl ⟨rfl, rfl⟩
    | later h => exact .inr (.inl h)
    | main h => exact .inr (.inr ⟨_, _, _, _, _, rfl, rfl, .inl h⟩)
    | inverse h => exact .inr (.inr ⟨_, _, _, _, _, rfl, rfl, .inr h⟩)
  · rintro (⟨rfl, rfl⟩ | h | ⟨path, arguments, main, inverse, d', rfl, rfl, h | h⟩)
    · exact .here
    · exact .later h
    · exact .main h
    · exact .inverse h

/-- The programs that are rendered where `p` is: itself, and the bodies of partials. -/
inductive Template.Reaches (t : Template) (cs : Contexts) (p : Program) : Program → Prop
  | self : t.Reaches cs p p
  | body {q name context named d b} : t.Reaches cs p q →
      Occurs (.insertion name context named) d q →
      ((t.partial? name).run cs).result = .ok (some b) → t.Reaches cs p b.program

/-- A program without insertions reaches itself only. -/
theorem Template.Reaches.eq_self {t : Template} {cs : Contexts} {p q : Program}
    (h : t.Reaches cs p q)
    (hp : ∀ name context named d, ¬ Occurs (.insertion name context named) d p) : q = p := by
  induction h with
  | self => rfl
  | body hq ho hpartial ih =>
    subst ih
    exact absurd ho (hp _ _ _ _)

/-- Every statement of a program fits the depth at which it stands, `k` being that of the whole. -/
def AtDepth (fits : Nat → Statement → Prop) (k : Nat) (p : Program) : Prop :=
  ∀ s d, Occurs s d p → fits (k + d) s

end Stencil
