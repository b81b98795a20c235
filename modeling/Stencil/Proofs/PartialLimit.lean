import Stencil.Proofs.Locality

/-!
The limit of partials. A program that may enter more partials inside one another renders as before,
unless it ran into the limit before.
-/
namespace Stencil

/-- The error of a partial that may not be entered any more. -/
def RenderError.IsLimit (e : RenderError) : Prop := ∃ name limit, e = .recursionLimit name limit

/-- Where the first rendering does not end at the limit, the results are the same. -/
theorem Render.Alike.result_eq {α : Type} {cs : Contexts} {m n : Render α}
    (h : Alike RenderError.IsLimit cs cs (· = ·) m n)
    (hlimit : ∀ name limit, (m.run cs).result ≠ .error (.recursionLimit name limit)) :
    (m.run cs).result = (n.run cs).result := by
  refine (h.right ?_).2.eq
  rintro e he ⟨name, limit, rfl⟩
  exact hlimit name limit he

/-- Two scopes with the same values and private data, as far out as they go. -/
abbrev Scope.Same (s s' : Scope) : Prop := ScopeAlike (· = ·) (fun _ => True) ⊤ s s'

theorem Scope.Same.refl (s : Scope) : s.Same s := fun _ _ =>
  rel_refl (fun _ => ⟨rfl, fun _ _ => rel_refl (fun _ => rfl) _⟩) _

section
variable {t : Template} {cs : Contexts} {f f' : String → Value → Render String}
  {enter : Option (Program → Scope → Render String)} {s s' : Scope}

namespace Renderer

variable {name : String} {b : Partial}
  (hpartial : ((t.partial? name).run cs).result = .ok (some b)) (r : Renderer)
  (ht : r.template = t)
include hpartial ht

/-- Where no partial may be entered, an insertion ends at the limit. -/
theorem result_insertion_refused (hr : r.enter? = none) (s : Scope) (context : Option Expression)
    (named : NamedParams) :
    ((r.insertion s name context named).run cs).result =
      .error (.recursionLimit name t.options.partialLimit) := by
  subst ht
  rw [insertion, Render.result_bind (r.template.keeps_partial? name), hpartial, hr]
  rfl

/-- Elsewhere it evaluates its named parameters, then its context, and enters the body. -/
theorem result_insertion_entered {enter : Program → Scope → Render String}
    (hr : r.enter? = some enter) (s : Scope) (context : Option Expression) (named : NamedParams) :
    ((r.insertion s name context named).run cs).result =
      ((Render.evaluateNamed s named.entries).run cs).result.bind fun entries =>
        let data := s.data.insertAll entries
        match context with
        | some e => ((Render.evaluate s e).run cs).result.bind fun v =>
          ((enter b.program (s.child v data)).run cs).result
        | none => ((enter b.program (s.withData data)).run cs).result := by
  subst ht
  rw [insertion, Render.result_bind (r.template.keeps_partial? name), hpartial, hr]
  dsimp only [Except.bind]
  rw [Render.result_bind (Render.keeps_evaluateNamed s named.entries cs)]
  cases context with
  | none => rfl
  | some e =>
    simp only [Render.result_bind (Render.keeps_evaluate s e cs)]
    rfl

end Renderer

/-- Where no partial may be entered, an insertion fails as any other, or at the limit. -/
theorem alike_insertion_none (name : String) (context : Option Expression) (named : NamedParams) :
    Render.Alike RenderError.IsLimit cs cs (· = ·)
      (Renderer.insertion ⟨t, f, none⟩ s name context named)
      (Renderer.insertion ⟨t, f', enter⟩ s' name context named) := by
  apply (Render.Alike.same (fun _ => t.keeps_partial? name) rfl).bind
  rintro found _ ⟨rfl, -⟩
  cases found with
  | none => exact .fail _
  | some b => exact .waive (.ofExcept _) rfl ⟨_, _, rfl⟩

theorem fits_of_onlyBuiltins_everywhere (hb : t.OnlyBuiltins cs) (x : Statement) :
    FitsAnywhere t cs cs (· = ·) x :=
  fits_of_onlyBuiltins hb fun _ _ _ _ => ⟨le_top, fun _ _ => trivial⟩

/-- With more room for partials a program renders alike, unless it ran out of room. The template may
be another one that resolves names alike, with a limit of its own where there is more room. -/
theorem alike_renderProgram_of_lookup (hb : t.OnlyBuiltins cs) {t' : Template}
    (ht : t'.SameLookup t) {room room' : Nat} (h : room ≤ room')
    (hlimit : room = room' → t'.options.partialLimit = t.options.partialLimit) (p : Program)
    (hs : s.Same s') :
    Render.Alike RenderError.IsLimit cs cs (· = ·) (renderProgram t f room p s)
      (renderProgram t' f' room' p s') := by
  have hfits (p : Program) :
      AtDepth (fun d => Fits t cs cs (fun _ => True) (· = ·) (⊤ + d)) 0 p := by
    intro x d _
    rw [top_add]
    exact fits_of_onlyBuiltins_everywhere hb x
  induction room generalizing room' p s s' with
  | zero =>
    obtain ⟨enter, hr⟩ : ∃ enter, renderProgram t' f' room' p s' =
        Renderer.program ⟨t, f', enter⟩ s' p := by
      cases room' with
      | zero => exact ⟨none, Renderer.program_congr ht f' (fun _ => hlimit rfl) s' p⟩
      | succ room' =>
        exact ⟨some (renderProgram t' f' room'), Renderer.program_congr ht f' (by simp) s' p⟩
    rw [hr]
    refine alike_program_of_insertions Value.indistinct_eq textsAlike_self .eq (hfits p) ?_
      (by simpa using hs)
    exact fun name context named d _ s s' _ => alike_insertion_none name context named
  | succ room ih =>
    obtain ⟨room', rfl⟩ := Nat.exists_eq_add_of_le' h
    have henter : EnterAlike RenderError.IsLimit cs cs (· = ·) (fun _ => True) (· = ·) ⊤ t p
        (some (renderProgram t f room)) (some (renderProgram t' f' (room' + room))) :=
      .some fun q _ s s' hs => ih (Nat.le_add_left room room')
        (fun heq => hlimit (congrArg (· + 1) heq)) q hs
    have hr : renderProgram t' f' (room' + (room + 1)) p s' =
        Renderer.program ⟨t, f', some (renderProgram t' f' (room' + room))⟩ s' p :=
      Renderer.program_congr ht f' (by simp) s' p
    rw [hr]
    refine alike_program_of_insertions Value.indistinct_eq textsAlike_self .eq (hfits p) ?_
      (by simpa using hs)
    exact fun name context named d hd s s' hs => alike_insertion Value.indistinct_eq henter hs
      le_self_add (hfits p _ _ hd) fun b hb => .body .self hd hb

/-- With more room for partials a program renders alike, unless it ran out of room. -/
theorem alike_renderProgram_of_le (hb : t.OnlyBuiltins cs) {room room' : Nat} (h : room ≤ room')
    (p : Program) (hs : s.Same s') :
    Render.Alike RenderError.IsLimit cs cs (· = ·) (renderProgram t f room p s)
      (renderProgram t f' room' p s') :=
  alike_renderProgram_of_lookup hb ⟨rfl, rfl, rfl⟩ h (fun _ => rfl) p hs

theorem keeps_renderProgram (hb : t.OnlyBuiltins cs) (room : Nat) (p : Program) (s : Scope) :
    (renderProgram t f room p s).Keeps cs :=
  have h : Render.Alike RenderError.IsLimit cs cs (· = ·) (renderProgram t f room p s)
      (renderProgram t f room p s) := alike_renderProgram_of_le hb le_rfl p (.refl s)
  h.left

end

end Stencil
