import Stencil.Proofs.Resolution
import Stencil.Template.Render

/-!
Two renderings compared. They are alike when both leave the contexts as they are, read only fields
that templates may read, and agree in their results. The rules follow how renderings are built.
-/
namespace Stencil

/-- Two results agree: both are values that `R` relates, or both are one error. -/
inductive Agree {ε α β : Type} (R : α → β → Prop) : Except ε α → Except ε β → Prop
  | ok {a b} : R a b → Agree R (.ok a) (.ok b)
  | error (e) : Agree R (.error e) (.error e)

section Agree
variable {ε ε' α β : Type} {R S : α → β → Prop} {x : Except ε α} {y : Except ε β}

theorem Agree.mono (h : Agree R x y) (hRS : ∀ a b, R a b → S a b) : Agree S x y := by
  cases h with
  | ok h => exact .ok (hRS _ _ h)
  | error e => exact .error e

theorem Agree.bind {γ δ : Type} {T : γ → δ → Prop} {f : α → Except ε γ} {g : β → Except ε δ}
    (h : Agree R x y) (hfg : ∀ a b, R a b → Agree T (f a) (g b)) :
    Agree T (x.bind f) (y.bind g) := by
  cases h with
  | ok h => exact hfg _ _ h
  | error e => exact .error e

theorem Agree.mapError (h : Agree R x y) (f : ε → ε') :
    Agree R (x.mapError f) (y.mapError f) := by
  cases h with
  | ok h => exact .ok h
  | error e => exact .error (f e)

theorem Agree.eq {x y : Except ε α} (h : Agree (· = ·) x y) : x = y := by
  cases h with
  | ok h => rw [h]
  | error e => rfl

theorem Agree.refl {R : α → α → Prop} (h : ∀ a, R a a) (x : Except ε α) : Agree R x x := by
  cases x with
  | ok a => exact .ok (h a)
  | error e => exact .error e

end Agree

/-- An event that is no reading of a field that is kept from templates. -/
def Event.Allowed : Event → Prop
  | .read field => field.key ∈ field.host.allowedKeys
  | .asked .. | .logged .. | .called _ => True

namespace Render

variable {α β γ δ : Type}

/-- A rendering that leaves the contexts `cs` as they are, and reads what templates may read. -/
structure Keeps (cs : Contexts) (m : Render α) : Prop where
  contexts : (m.run cs).contexts = cs
  allowed : ∀ e ∈ (m.run cs).events, e.Allowed

section Keeps
variable {cs : Contexts}

theorem Keeps.ofExcept (r : Except RenderError α) : Keeps cs (ofExcept r) where
  contexts := rfl
  allowed := nofun

theorem Keeps.pure (a : α) : Keeps cs (Pure.pure a : Render α) := Keeps.ofExcept (.ok a)

theorem Keeps.bind {m : Render α} {f : α → Render β} (h : Keeps cs m)
    (hf : ∀ a, (m.run cs).result = .ok a → Keeps cs (f a)) : Keeps cs (m >>= f) := by
  cases hr : (m.run cs).result with
  | error e =>
    constructor
    · rw [run_bind_of_error hr]
      exact h.contexts
    · rw [run_bind_of_error hr]
      exact h.allowed
  | ok a =>
    have hnext := hf a hr
    constructor
    · rw [run_bind_of_ok hr, h.contexts]
      exact hnext.contexts
    · rw [run_bind_of_ok hr, h.contexts]
      intro e he
      rcases List.mem_append.mp he with he | he
      · exact h.allowed e he
      · exact hnext.allowed e he

theorem Keeps.note {event : Event} (h : event.Allowed) : Keeps cs (note event) where
  contexts := rfl
  allowed e he := by
    obtain rfl : e = event := by simpa [Render.note, run] using he
    exact h

/-- The result of one rendering after another that keeps the contexts. -/
theorem result_bind {m : Render α} (h : Keeps cs m) (f : α → Render β) :
    ((m >>= f).run cs).result = (m.run cs).result.bind fun a => ((f a).run cs).result := by
  cases hr : (m.run cs).result with
  | error e => rw [run_bind_of_error hr]; rfl
  | ok a => rw [run_bind_of_ok hr, h.contexts]; rfl

end Keeps

/-- Two renderings, each in contexts of its own, that keep them and agree in their results. Where
the first ends in an error that is waived, nothing is said of the second. -/
structure Alike (waived : RenderError → Prop) (cs ds : Contexts) (R : α → β → Prop) (m : Render α)
    (n : Render β) : Prop where
  left : m.Keeps cs
  right : (∀ e, (m.run cs).result = .error e → ¬ waived e) →
    n.Keeps ds ∧ Agree R (m.run cs).result (n.run ds).result

section Alike
variable {waived : RenderError → Prop} {cs ds : Contexts} {R : α → β → Prop} {m : Render α}
  {n : Render β}

theorem Alike.mono {S : α → β → Prop} (h : Alike waived cs ds R m n)
    (hRS : ∀ a b, R a b → S a b) : Alike waived cs ds S m n where
  left := h.left
  right hw := ⟨(h.right hw).1, (h.right hw).2.mono hRS⟩

theorem Alike.of_keeps (hm : m.Keeps cs) (hn : n.Keeps ds)
    (h : Agree R (m.run cs).result (n.run ds).result) : Alike waived cs ds R m n :=
  ⟨hm, fun _ => ⟨hn, h⟩⟩

theorem Alike.pure {a : α} {b : β} (h : R a b) : Alike waived cs ds R (Pure.pure a) (Pure.pure b) :=
  .of_keeps (.pure a) (.pure b) (.ok h)

theorem Alike.fail (e : RenderError) : Alike waived cs ds R (Render.fail e) (Render.fail e) :=
  .of_keeps (.ofExcept _) (.ofExcept _) (.error e)

/-- Nothing is said of the second rendering where the first ends in a waived error. -/
theorem Alike.waive {e : RenderError} (hm : m.Keeps cs) (he : (m.run cs).result = .error e)
    (hw : waived e) : Alike waived cs ds R m n :=
  ⟨hm, fun h => absurd hw (h e he)⟩

/-- Only the result of the first rendering counts, as far as that keeps the contexts. -/
theorem Alike.of_result_eq {m' : Render α} (hm : m'.Keeps cs)
    (he : (m'.run cs).result = (m.run cs).result) (h : Alike waived cs ds R m n) :
    Alike waived cs ds R m' n :=
  ⟨hm, by rw [he]; exact h.right⟩

/-- A value of the first rendering has a related value of the second. -/
theorem Alike.related {a : α} (h : Alike waived cs ds R m n) (ha : (m.run cs).result = .ok a) :
    ∃ b, (n.run ds).result = .ok b ∧ R a b := by
  have hagree := (h.right (by simp [ha])).2
  rw [ha] at hagree
  cases hb : (n.run ds).result with
  | ok b =>
    rw [hb] at hagree
    cases hagree with
    | ok hR => exact ⟨b, rfl, hR⟩
  | error e =>
    rw [hb] at hagree
    cases hagree

/-- One rendering after another: what follows must be alike for related values. -/
theorem Alike.bind {S : γ → δ → Prop} {f : α → Render γ} {g : β → Render δ}
    (h : Alike waived cs ds R m n) (hfg : ∀ a b, R a b → Alike waived cs ds S (f a) (g b)) :
    Alike waived cs ds S (m >>= f) (n >>= g) := by
  have hleft : (m >>= f).Keeps cs := by
    apply h.left.bind
    intro a ha
    obtain ⟨b, -, hR⟩ := h.related ha
    exact (hfg a b hR).left
  refine ⟨hleft, fun hw => ?_⟩
  rw [result_bind h.left] at hw ⊢
  cases ha : (m.run cs).result with
  | error e =>
    rw [ha] at hw
    obtain ⟨hn, hagree⟩ := h.right fun e' he' => hw e' (by
      obtain rfl : e = e' := by simpa [ha] using he'
      rfl)
    rw [ha] at hagree
    rw [result_bind hn]
    cases hb : (n.run ds).result with
    | ok b => rw [hb] at hagree; cases hagree
    | error e' =>
      rw [hb] at hagree
      cases hagree
      exact ⟨hn.bind fun b hb' => by simp [hb] at hb', .error e⟩
  | ok a =>
    rw [ha] at hw
    obtain ⟨b, hb, hR⟩ := h.related ha
    have hn := (h.right (by simp [ha])).1
    obtain ⟨hg, hagree⟩ := (hfg a b hR).right hw
    rw [result_bind hn, hb]
    refine ⟨hn.bind fun b' hb' => ?_, hagree⟩
    obtain rfl : b = b' := by simpa [hb] using hb'
    exact hg

end Alike

end Render

/-! What is looked up by name keeps the contexts. -/

section Lookup
variable {cs : Contexts}

theorem ExecutionContext.allowed_asks (c : ExecutionContext) (id : ContextId) (hook : Hook)
    (subject : String) : ∀ e ∈ c.asks id hook subject, e.Allowed := by
  intro e he
  obtain ⟨d, -, rfl⟩ := List.mem_map.mp he
  trivial

theorem ExecutionContext.allowed_asksHelper (c : ExecutionContext) (name : String)
    (id : ContextId) : ∀ e ∈ c.asksHelper name id, e.Allowed := by
  rw [asksHelper]
  split
  · simp
  · exact c.allowed_asks id .helper name

theorem ExecutionContext.allowed_asksPartial (c : ExecutionContext) (name : String)
    (id : ContextId) : ∀ e ∈ c.asksPartial name id, e.Allowed := by
  rw [asksPartial]
  split
  · simp
  · intro e he
    rcases List.mem_append.mp he with he | he
    · exact c.allowed_asks id .partialBody name e he
    · split at he
      · cases he
      · exact c.allowed_asks id .partialSource name e he

/-- A rendering that is given as a whole: it asks delegates, and nothing else. -/
theorem Template.keeps_of_run (t : Template) {α β : Type} {m : Render α} {cs : Contexts}
    {r : Except RenderError α} {answer : ExecutionContext → Option β}
    {asks : ExecutionContext → ContextId → List Event}
    (h : m.run cs = ⟨r, cs, t.asked cs answer asks⟩) (ha : ∀ c id, ∀ e ∈ asks c id, e.Allowed) :
    m.Keeps cs where
  contexts := by rw [h]
  allowed e he := by
    rw [h] at he
    obtain ⟨id, -, he⟩ := List.mem_flatMap.mp he
    exact ha _ id e he

namespace Template

variable (t : Template)

theorem keeps_helper? (name : String) : (t.helper? name).Keeps cs :=
  t.keeps_of_run (t.run_helper? cs name) (·.allowed_asksHelper name)

theorem keeps_partial? (name : String) : (t.partial? name).Keeps cs :=
  t.keeps_of_run (t.run_partial? cs name) (·.allowed_asksPartial name)

theorem keeps_localize (text : String) : (t.localize text).Keeps cs :=
  t.keeps_of_run (t.run_localize cs text) (·.allowed_asks · _ _)

theorem keeps_escape (raw : String) : (t.escape raw).Keeps cs :=
  t.keeps_of_run (t.run_escape cs raw) (·.allowed_asks · _ _)

end Template
end Lookup

end Stencil
