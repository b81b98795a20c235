import Stencil.Context

/-!
Renderings: computations that may fail, that read and change the execution contexts, and that an
application observes as a list of events. Events and changes made before a failure stay.
-/
namespace Stencil

/-- How a rendering ended, the contexts it left, and its events in order. -/
structure Outcome (α : Type) where
  result : Except RenderError α
  contexts : Contexts
  events : List Event

/-- A rendering, from the contexts it starts with. -/
def Render (α : Type) : Type := Contexts → Outcome α

namespace Render

variable {α β γ : Type}

/-- How a rendering goes from `cs`. -/
def run (m : Render α) (cs : Contexts) : Outcome α := m cs

@[ext] theorem ext {m n : Render α} (h : ∀ cs, m.run cs = n.run cs) : m = n := funext h

/-- Ends at once. -/
def ofExcept (r : Except RenderError α) : Render α := fun cs => ⟨r, cs, []⟩

def fail (e : RenderError) : Render α := ofExcept (.error e)

/-- One rendering after another; the second is not begun when the first fails. -/
protected def bind (m : Render α) (f : α → Render β) : Render β := fun cs =>
  let first := m cs
  match first.result with
  | .ok a =>
    let second := f a first.contexts
    { second with events := first.events ++ second.events }
  | .error e => ⟨.error e, first.contexts, first.events⟩

instance : Monad Render where
  pure a := ofExcept (.ok a)
  bind := Render.bind

theorem run_pure (a : α) (cs : Contexts) : (pure a : Render α).run cs = ⟨.ok a, cs, []⟩ := rfl

theorem run_fail (e : RenderError) (cs : Contexts) :
    (fail e : Render α).run cs = ⟨.error e, cs, []⟩ := rfl

theorem run_bind_of_ok {m : Render α} {f : α → Render β} {cs : Contexts} {a : α}
    (h : (m.run cs).result = .ok a) :
    (m >>= f).run cs =
      { (f a).run (m.run cs).contexts with
        events := (m.run cs).events ++ ((f a).run (m.run cs).contexts).events } := by
  simp only [run] at h
  simp only [run, Bind.bind, Render.bind, h]

theorem run_bind_of_error {m : Render α} {f : α → Render β} {cs : Contexts} {e : RenderError}
    (h : (m.run cs).result = .error e) :
    (m >>= f).run cs = ⟨.error e, (m.run cs).contexts, (m.run cs).events⟩ := by
  simp only [run] at h
  simp only [run, Bind.bind, Render.bind, h]

protected theorem id_map (m : Render α) : id <$> m = m := by
  funext cs
  simp only [Functor.map, Render.bind]
  rcases m cs with ⟨_ | _, _, _⟩ <;> simp [ofExcept]

protected theorem pure_bind (a : α) (f : α → Render β) : pure a >>= f = f a := by
  funext cs
  simp [Bind.bind, Render.bind, Pure.pure, ofExcept]

protected theorem bind_assoc (m : Render α) (f : α → Render β) (g : β → Render γ) :
    m >>= f >>= g = m >>= fun a => f a >>= g := by
  funext cs
  simp only [Bind.bind, Render.bind]
  rcases m cs with ⟨_ | a, cs, events⟩
  · rfl
  · dsimp only
    rcases f a cs with ⟨_ | b, cs, events⟩
    · rfl
    · simp

instance : LawfulMonad Render :=
  LawfulMonad.mk' _ Render.id_map Render.pure_bind Render.bind_assoc

/-- The result of a rendering as a value, so that one can go on after a failure. -/
def attempt (m : Render α) : Render (Except RenderError α) := fun cs =>
  let outcome := m cs
  { outcome with result := .ok outcome.result }

/-- Makes an event. -/
def note (event : Event) : Render Unit := fun cs => ⟨.ok (), cs, [event]⟩

/-- The present state of a context. -/
def context (id : ContextId) : Render ExecutionContext := fun cs => ⟨.ok (cs.get id), cs, []⟩

/-- Changes a context. -/
def update (id : ContextId) (f : ExecutionContext → ExecutionContext) : Render Unit :=
  fun cs => ⟨.ok (), cs.update id f, []⟩

/-- A reading of values, whose reads are events, with its result as a value. -/
def attemptReading (r : Reading α) : Render (Except HostAccessError α) :=
  fun cs => ⟨.ok r.result, cs, r.reads.map .read⟩

/-- A reading of values, whose reads are events and whose failure is that of the rendering. -/
def reading (r : Reading α) : Render α :=
  fun cs => ⟨r.result.mapError .hostAccess, cs, r.reads.map .read⟩

/-- A rendering with an empty context of its own for `id`, which is as before afterwards. -/
def inScratch (id : ContextId) (m : Render α) : Render α := fun cs =>
  let outcome := m (cs.set id {})
  { outcome with contexts := outcome.contexts.set id (cs.get id) }

end Render
end Stencil
