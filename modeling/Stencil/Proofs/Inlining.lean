import Stencil.Proofs.PartialLimit
import Stencil.Proofs.Written.Tree

/-!
Partials written out. Unless it runs into the limit of partials, an insertion renders as the body of
its partial does in its place, and an insertion for a value as a block of `with` around the body.
-/
namespace Stencil

/-- A program with one of its statements, `x`, inside any sections of its blocks, and the same
program with the statements `body` in place of that one. -/
inductive Replaces (x : Statement) (body : Program) : Program → Program → Prop
  | here (rest) : Replaces x body (x :: rest) (body ++ rest)
  | later {s rest rest'} : Replaces x body rest rest' → Replaces x body (s :: rest) (s :: rest')
  | main {path arguments main main' inverse rest} : Replaces x body main main' →
      Replaces x body (.block path arguments main inverse :: rest)
        (.block path arguments main' inverse :: rest)
  | inverse {path arguments main inverse inverse' rest} : Replaces x body inverse inverse' →
      Replaces x body (.block path arguments main inverse :: rest)
        (.block path arguments main inverse' :: rest)

section
variable {t : Template} {cs : Contexts} {f : String → Value → Render String}

/-- A statement and a program that render alike in every scope do so at any place of a program. -/
theorem alike_replaces (hb : t.OnlyBuiltins cs) {room : Nat} {x : Statement} {body : Program}
    (hx : ∀ s s', Scope.Same s s' → Render.Alike RenderError.IsLimit cs cs (· = ·)
      (renderProgram t f room [x] s) (renderProgram t f room body s'))
    {p p' : Program} (h : Replaces x body p p') {s s' : Scope} (hs : s.Same s') :
    Render.Alike RenderError.IsLimit cs cs (· = ·) (renderProgram t f room p s)
      (renderProgram t f room p' s') := by
  obtain ⟨enter, hr⟩ := exists_renderer t f room
  have hself : ∀ p s s', Scope.Same s s' → Render.Alike RenderError.IsLimit cs cs (· = ·)
      (Renderer.program ⟨t, f, enter⟩ s p) (Renderer.program ⟨t, f, enter⟩ s' p) := by
    intro p s s' hs
    rw [← hr, ← hr]
    exact alike_renderProgram_of_le hb le_rfl p hs
  simp only [hr, program_singleton] at hx ⊢
  induction h generalizing s s' with
  | here rest =>
    rw [Renderer.program_cons, Renderer.program_append]
    exact .append .eq (hx s s' hs) (hself rest s s' hs)
  | @later first rest rest' _ ih =>
    have hfirst := hself [first] s s' hs
    rw [program_singleton, program_singleton] at hfirst
    rw [Renderer.program_cons, Renderer.program_cons]
    exact .append .eq hfirst (ih hs)
  | main _ ih =>
    rw [Renderer.program_cons, Renderer.program_cons]
    refine .append .eq ?_ (hself _ s s' hs)
    exact alike_block Value.indistinct_eq hs textsAlike_self .eq
      (fits_of_onlyBuiltins_everywhere hb _) (fun _ _ hs => ih hs) (fun _ _ hs => hself _ _ _ hs)
  | inverse _ ih =>
    rw [Renderer.program_cons, Renderer.program_cons]
    refine .append .eq ?_ (hself _ s s' hs)
    exact alike_block Value.indistinct_eq hs textsAlike_self .eq
      (fits_of_onlyBuiltins_everywhere hb _) (fun _ _ hs => hself _ _ _ hs) (fun _ _ hs => ih hs)

/-- A block of `with` shows its main section in a scope of the value inside the one around it. -/
theorem result_with (hb : t.OnlyBuiltins cs) (r : Renderer) (hr : r.template = t) {s : Scope}
    {e : Expression} {v : Value} (he : ((Render.evaluate s e).run cs).result = .ok v)
    (hv : v ≠ .null) (source : String) (main inverse : Program) :
    ((r.statement s (.block ⟨[.field "with"], source⟩ ⟨[e], {}⟩ main inverse)).run cs).result =
      ((r.program (s.child v s.data) main).run cs).result := by
  have hnull : v.isNull = false := by
    cases v with
    | null => exact absurd rfl hv
    | bool _ | number _ | string _ | array _ | object _ | host _ => rfl
  rw [result_block hb r hr he (show builtin? "with" = some Builtin.withHelper from rfl)]
  simp [Builtin.withHelper, Call.param?, Option.filter_some, hnull, Action.perform_renderThen]

/-! Insertions. -/

variable {name : String} {b : Partial}
  (hpartial : ((t.partial? name).run cs).result = .ok (some b))
include hpartial

/-- Without a context the body is rendered in the scope around the insertion, with one partial less
to enter. -/
theorem result_insertion (room : Nat) (s : Scope) :
    ((renderProgram t f (room + 1) [.insertion name none {}] s).run cs).result =
      ((renderProgram t f room b.program s).run cs).result := by
  rw [renderProgram, program_singleton, Renderer.statement,
    Renderer.result_insertion_entered hpartial _ rfl rfl]
  rfl

/-- With a context the body is rendered in a scope of that value inside the one around the
insertion. -/
theorem result_insertion_context (room : Nat) {s : Scope} {e : Expression} {v : Value}
    (he : ((Render.evaluate s e).run cs).result = .ok v) :
    ((renderProgram t f (room + 1) [.insertion name (some e) {}] s).run cs).result =
      ((renderProgram t f room b.program (s.child v s.data)).run cs).result := by
  rw [renderProgram, program_singleton, Renderer.statement,
    Renderer.result_insertion_entered hpartial _ rfl rfl]
  dsimp only
  rw [he]
  rfl

/-- Where no partial may be entered, an insertion ends at the limit. -/
theorem result_insertion_none (context : Option Expression) (s : Scope) :
    ((renderProgram t f 0 [.insertion name context {}] s).run cs).result =
      .error (.recursionLimit name t.options.partialLimit) := by
  rw [renderProgram, program_singleton, Renderer.statement]
  exact Renderer.result_insertion_refused hpartial _ rfl rfl s context {}

/-- An insertion without context and the body of its partial, in any scope. -/
theorem alike_insertion_body (hb : t.OnlyBuiltins cs) (room : Nat) {s s' : Scope}
    (hs : s.Same s') :
    Render.Alike RenderError.IsLimit cs cs (· = ·)
      (renderProgram t f room [.insertion name none {}] s)
      (renderProgram t f room b.program s') := by
  have hkeeps := keeps_renderProgram (f := f) hb room [.insertion name none {}] s
  cases room with
  | zero => exact .waive hkeeps (result_insertion_none hpartial none s) ⟨_, _, rfl⟩
  | succ room =>
    exact .of_result_eq hkeeps (result_insertion hpartial room s)
      (alike_renderProgram_of_le hb room.le_succ b.program hs)

/-- Partials can be written out. Where only the helpers of every template are called, a program
whose insertion of a partial, without context, is replaced by the body of the partial renders as
before, and so does an insertion for a value that is not null as a block of `with` for that value
around the body, unless the insertion ends at the limit of partials. The body is rendered in the
scope of the insertion itself without a context, and in one inside it with a context. In the scope
of a whole template `room` is its limit. -/
theorem render_inlined (hb : t.OnlyBuiltins cs) (room : Nat) (s : Scope) :
    (∀ p p', Replaces (.insertion name none {}) b.program p p' →
      (∀ n limit, ((renderProgram t f room p s).run cs).result ≠
        .error (.recursionLimit n limit)) →
      ((renderProgram t f room p s).run cs).result =
        ((renderProgram t f room p' s).run cs).result) ∧
    (∀ e v source, ((Render.evaluate s e).run cs).result = .ok v → v ≠ .null →
      (∀ n limit, ((renderProgram t f room [.insertion name (some e) {}] s).run cs).result ≠
        .error (.recursionLimit n limit)) →
      ((renderProgram t f room [.insertion name (some e) {}] s).run cs).result =
        ((renderProgram t f room
          [.block ⟨[.field "with"], source⟩ ⟨[e], {}⟩ b.program []] s).run cs).result) ∧
    ((renderProgram t f (room + 1) [.insertion name none {}] s).run cs).result =
      ((renderProgram t f room b.program s).run cs).result ∧
    ∀ e v, ((Render.evaluate s e).run cs).result = .ok v →
      ((renderProgram t f (room + 1) [.insertion name (some e) {}] s).run cs).result =
        ((renderProgram t f room b.program (s.child v s.data)).run cs).result := by
  refine ⟨fun p p' h hlimit => ?_, fun e v source he hv hlimit => ?_,
    result_insertion hpartial room s, fun e v he => result_insertion_context hpartial room he⟩
  · have hbody : ∀ s s', Scope.Same s s' → Render.Alike RenderError.IsLimit cs cs (· = ·)
        (renderProgram t f room [.insertion name none {}] s)
        (renderProgram t f room b.program s') :=
      fun s s' hs => alike_insertion_body hpartial hb room hs
    exact (alike_replaces hb hbody h (.refl s)).result_eq hlimit
  · cases room with
    | zero => exact absurd (result_insertion_none hpartial (some e) s) (hlimit _ _)
    | succ room =>
      rw [result_insertion_context hpartial room he] at hlimit ⊢
      obtain ⟨enter, hr⟩ := exists_renderer t f (room + 1)
      rw [hr, program_singleton, result_with hb _ rfl he hv, ← hr]
      have hmore : Render.Alike RenderError.IsLimit cs cs (· = ·)
          (renderProgram t f room b.program (s.child v s.data))
          (renderProgram t f (room + 1) b.program (s.child v s.data)) :=
        alike_renderProgram_of_le hb room.le_succ b.program (.refl _)
      exact hmore.result_eq hlimit

end

open Written in
/-- The partial `[name], `. -/
def entryPartial : Partial where
  source := "\x7b\x7b[name]\x7d\x7d, "
  program := [.tag (.path ⟨[.field "name"], "[name]"⟩) {} true, .raw ", "]
  parses := by
    have hname : WritablePath ⟨[.field "name"], "[name]"⟩ :=
      writablePath_plain (by decide) (by decide)
    have hcomma : WritableRaw false ", ".toList := ⟨by decide, by decide, nofun⟩
    have hw : Writable [.tag (.path ⟨[.field "name"], "[name]"⟩) {} true, .raw ", "] :=
      ⟨.tag hname writableArguments_nil (.raw hcomma (by simp) .nil), by decide⟩
    have htext : ProgramText false
        [.tag (.path ⟨[.field "name"], "[name]"⟩) {} true, .raw ", "] _ :=
      .tag (.escaped (.intro .nil .nil .nil)) (.raw .nil)
    exact htext.parse hw

/-- A list whose entries are shown by a partial, and by its body written out; one entry shown by the
partial for a value, and in a block of `with`. -/
theorem render_inlined_list :
    let cs := Contexts.empty.update .global (·.insertPartial "entry" entryPartial)
    let t : Template := ⟨"", {}, .global, none⟩
    let this : Expression := .path ⟨[.this], "this"⟩
    let each (body : Program) : Program :=
      [.block ⟨[.field "each"], "each"⟩ ⟨[this], {}⟩ body []]
    let person (name : String) : Value := .object [("name", .string name)]
    let out (p : Program) (v : Value) : Except RenderError String :=
      ((renderProgram t (fun _ _ => pure "") 1 p (.root v)).run cs).result
    out (each [.insertion "entry" none {}]) (.array [person "Ann", person "Bob"]) =
        .ok "Ann, Bob, " ∧
      out (each entryPartial.program) (.array [person "Ann", person "Bob"]) = .ok "Ann, Bob, " ∧
      out [.insertion "entry" (some this) {}] (person "Ann") = .ok "Ann, " ∧
      out [.block ⟨[.field "with"], "with"⟩ ⟨[this], {}⟩ entryPartial.program []] (person "Ann") =
        .ok "Ann, " := by
  intro cs t this each person out
  have hb : t.OnlyBuiltins cs := fun name => rfl
  have hpartial : ((t.partial? "entry").run cs).result = .ok (some entryPartial) := rfl
  have hlist : out (each [.insertion "entry" none {}]) (.array [person "Ann", person "Bob"]) =
      .ok "Ann, Bob, " := by
    decide +kernel
  have hentry : out [.insertion "entry" (some this) {}] (person "Ann") = .ok "Ann, " := by
    decide +kernel
  have hreplaces : Replaces (.insertion "entry" none {}) entryPartial.program
      (each [.insertion "entry" none {}]) (each entryPartial.program) := .main (.here [])
  obtain ⟨hbody, -⟩ := render_inlined (f := fun _ _ => pure "") hpartial hb 1
    (.root (.array [person "Ann", person "Bob"]))
  obtain ⟨-, hwith, -⟩ := render_inlined (f := fun _ _ => pure "") hpartial hb 1
    (.root (person "Ann"))
  have hbodyOut := hbody _ _ hreplaces fun _ _ h => by cases hlist.symm.trans h
  have hwithOut := hwith this (person "Ann") "with" rfl nofun fun _ _ h => by
    cases hentry.symm.trans h
  exact ⟨hlist, hbodyOut.symm.trans hlist, hentry, hwithOut.symm.trans hentry⟩

end Stencil
