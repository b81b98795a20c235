import Stencil.Proofs.Concatenation.Behind
import Stencil.Proofs.Concatenation.Seam
import Stencil.Proofs.Locality
import Stencil.Proofs.Preservation

/-!
Texts one after the other. Where no escape, brace or tilde reaches over the seam, two texts that
parse make a text that parses to both programs, and a template of it renders as the two do.
-/
namespace Stencil

/-- Two texts whose ends take no part in one another: the first does not end in the middle of an
escape or of braces, and no tag trims white space of the other text. -/
structure Separate (a b : String) : Prop where
  closed : Sealed a.toList
  noTrimAfter : ¬ ['~', '}', '}'] <:+ trimEnd a.toList
  noTrimBefore : ¬ ['{', '{', '~'] <+: trimStart b.toList

theorem parse_joined {a b : String} (hs : Separate a b) {p q : Program} (ha : parse a = .ok p)
    (hb : parse b = .ok q) : parse (a ++ b) = .ok (joinPrograms p q) := by
  obtain ⟨ps, hps, hflatP, hrunP⟩ := exists_tokens ha
  obtain ⟨qs, hqs, hflatQ, hrunQ⟩ := exists_tokens hb
  have htokens := hps.append hqs hs.closed
  rw [← String.toList_append] at htokens
  have hsettled : SettledAfter false ps := settledAfter_of_tokens hps nofun hs.noTrimAfter
  refine (parse_of_tokens htokens).1 _ ?_
  rw [trimPieces_joinPieces hsettled (settledBefore_of_tokens hqs hs.noTrimBefore)]
  exact Nesting.run_joinPieces (flat_trimPieces hflatP false) (flat_trimPieces hflatQ false) hrunP
    hrunQ

/-! Programs rendered one after the other. -/

theorem Render.pure_append (a b : String) :
    (pure a : Render String).append (pure b) = pure (a ++ b) := by
  simp only [Render.append, pure_bind]

namespace Renderer

variable (r : Renderer) (scope : Scope)

/-- Raw texts show the same, joined or one after the other. -/
theorem program_raw_raw (a b : String) (p : Program) :
    r.program scope (.raw (a ++ b) :: p) = r.program scope (.raw a :: .raw b :: p) := by
  rw [program_cons, program_cons, program_cons, ← Render.append_assoc, statement, statement,
    statement, Render.pure_append]

theorem program_joinPrograms (p q : Program) :
    r.program scope (joinPrograms p q) = (r.program scope p).append (r.program scope q) := by
  unfold joinPrograms
  split
  next a b rest hlast =>
    obtain ⟨front, rfl⟩ := List.getLast?_eq_some_iff.mp hlast
    rw [List.dropLast_concat, program_append, program_raw_raw, ← program_append, ← program_append,
      List.append_assoc, List.singleton_append]
  next => exact r.program_append scope p _

end Renderer

/-! The text of a template counts only as the program that it parses to. -/

section
variable (t : Template) (source : String) (f : String → Value → Render String)

variable (enter : Option (Program → Scope → Render String))

theorem Renderer.program_withSource (scope : Scope) (p : Program) :
    Renderer.program ⟨{ t with source }, f, enter⟩ scope p =
      Renderer.program ⟨t, f, enter⟩ scope p := by
  have hlookup : Template.SameLookup { t with source } t := ⟨rfl, rfl, rfl⟩
  exact Renderer.program_congr hlookup f (fun _ => rfl) scope p

theorem renderProgram_withSource (room : Nat) (p : Program) (scope : Scope) :
    renderProgram { t with source } f room p scope = renderProgram t f room p scope := by
  induction room generalizing p scope with
  | zero => exact Renderer.program_withSource t source f none scope p
  | succ room ih =>
    have henter : renderProgram { t with source } f room = renderProgram t f room := by
      funext q s
      exact ih q s
    rw [renderProgram, renderProgram, henter]
    exact Renderer.program_withSource t source f _ scope p

end

section
variable {a b : String} {p q : Program}

/-- The texts one after the other render as the first, then the second. -/
theorem Template.renderWith_joined (hs : Separate a b) (ha : parse a = .ok p) (hb : parse b = .ok q)
    (t : Template) (f : String → Value → Render String) (v : Value) :
    renderWith { t with source := a ++ b } f v =
      (renderWith { t with source := a } f v).append (renderWith { t with source := b } f v) := by
  obtain ⟨enter, hr⟩ := exists_renderer t f t.options.partialLimit
  simp only [renderWith, parse_joined hs ha hb, ha, hb, renderProgram_withSource, hr]
  exact Renderer.program_joinPrograms _ _ p q

theorem Template.render_joined (hs : Separate a b) (ha : parse a = .ok p) (hb : parse b = .ok q)
    (t : Template) (v : Value) :
    render { t with source := a ++ b } v =
      (render { t with source := a } v).append (render { t with source := b } v) := by
  unfold render
  generalize standAloneLimit = level
  cases level with
  | zero => exact renderWith_joined hs ha hb t _ v
  | succ level => exact renderWith_joined hs ha hb t _ v

/-- Two separate texts that parse make a text that parses to the statements of the first and then of
the second, raw texts that meet being joined. Where no helper changes a context, a template of it
renders as a template of the first and then one of the second: the texts and events of the second
follow those of the first, and nothing of the second is rendered when the first fails. -/
theorem render_concatenated (hs : Separate a b) (ha : parse a = .ok p) (hb : parse b = .ok q) :
    parse (a ++ b) = .ok (joinPrograms p q) ∧
      ∀ (t : Template) (v : Value) (cs : Contexts), cs.HelpersPreserve →
        (Template.render { t with source := a ++ b } v).run cs =
          let first := (Template.render { t with source := a } v).run cs
          let second := (Template.render { t with source := b } v).run cs
          match first.result with
          | .error e => ⟨.error e, cs, first.events⟩
          | .ok text => ⟨second.result.map (text ++ ·), cs, first.events ++ second.events⟩ := by
  refine ⟨parse_joined hs ha hb, fun t v cs hcs => ?_⟩
  have hfirst := Template.leaves_render hcs { t with source := a } v
  have hsecond := Template.leaves_render hcs { t with source := b } v
  rw [Render.Leaves] at hfirst hsecond
  rw [Template.render_joined hs ha hb, Render.append]
  dsimp only
  cases hr : ((Template.render { t with source := a } v).run cs).result with
  | error e => rw [Render.run_bind_of_error hr, hfirst]
  | ok text =>
    rw [Render.run_bind_of_ok hr, hfirst]
    cases hr' : ((Template.render { t with source := b } v).run cs).result with
    | error e =>
      rw [Render.run_bind_of_error hr', hsecond]
      rfl
    | ok text' =>
      rw [Render.run_bind_of_ok hr', hsecond, Render.run_pure, List.append_nil]
      rfl

end

open Written in
/-- A tag of a helper that was registered, and a raw text that goes on in the second text. -/
theorem render_concatenated_greeting :
    let shout : Helper := fun call => .text (call.paramText 0 ++ "!")
    let cs := Contexts.empty.update .global (·.registerHelper "shout" shout)
    let v : Value := .object [("name", .string "<Bo>")]
    let call : Statement :=
      .tag (.path ⟨[.field "shout"], "[shout]"⟩) ⟨[.path ⟨[.field "name"], "[name]"⟩], {}⟩ true
    let first : Template := ⟨"Dear \x7b\x7b[shout] [name]\x7d\x7d,", {}, .made 0, none⟩
    let both : Template := { first with source := first.source ++ " hello" }
    cs.HelpersPreserve ∧ parse both.source = .ok [.raw "Dear ", call, .raw ", hello"] ∧
      ((both.render v).run cs).result = .ok "Dear &lt;Bo&gt;!, hello" := by
  intro shout cs v call first both
  have hshout : shout.Preserves := Helper.preserves_of_readOnly fun _ => .done _
  have hcs : cs.HelpersPreserve := Contexts.helpersPreserve_empty.registerHelper hshout _ _
  have hshoutPath : WritablePath ⟨[.field "shout"], "[shout]"⟩ :=
    writablePath_plain (by decide) (by decide)
  have hnamePath : WritablePath ⟨[.field "name"], "[name]"⟩ :=
    writablePath_plain (by decide) (by decide)
  have hspace : Gap [' '] := ⟨by simp, by simp [Blank, isSpace]⟩
  have ha : parse first.source = .ok [.raw "Dear ", call, .raw ","] := by
    have hargs : WritableArguments ⟨[.path ⟨[.field "name"], "[name]"⟩], {}⟩ :=
      writableArguments_single hnamePath
    have hdear : WritableRaw true "Dear ".toList :=
      ⟨by decide, by decide, fun _ => by simp [Paired]⟩
    have hcomma : WritableRaw false ",".toList := ⟨by decide, by decide, by simp⟩
    have hw : Writable [.raw "Dear ", call, .raw ","] :=
      ⟨.raw hdear (by simp [call, isRaw]) (.tag hshoutPath hargs (.raw hcomma (by simp) .nil)),
        by decide⟩
    have htext : ProgramText false [.raw "Dear ", call, .raw ","] _ :=
      .raw (.tag (.escaped (.intro .nil (.positional hspace .nil) .nil)) (.raw .nil))
    exact htext.parse hw
  have hb : parse " hello" = .ok [.raw " hello"] := by
    have hw : Writable [.raw " hello"] :=
      ⟨.raw ⟨by decide, by decide, by simp⟩ (by simp) .nil, by decide⟩
    have htext : ProgramText false [.raw " hello"] _ := .raw .nil
    exact htext.parse hw
  have hs : Separate first.source " hello" :=
    ⟨⟨by decide, by decide⟩, by decide +kernel, by decide +kernel⟩
  have hresult : ((first.render v).run cs).result = .ok "Dear &lt;Bo&gt;!," := by
    decide +kernel
  obtain ⟨hparse, hrender⟩ := render_concatenated hs ha hb
  refine ⟨hcs, hparse, ?_⟩
  have hboth := hrender first v cs hcs
  dsimp only at hboth
  rw [hresult] at hboth
  rw [hboth]
  decide +kernel

end Stencil
