import Stencil.Proofs.Alike.Program

/-!
Scopes are local. What a program shows depends on the value of its scope and on the private data
that it names, and on the scopes outside only as far as its paths climb.
-/
namespace Stencil

/-- Every name of a helper stands for the helper that every template can call, if there is one. -/
def Template.OnlyBuiltins (t : Template) (cs : Contexts) : Prop :=
  ∀ name, ((t.helper? name).run cs).result = .ok (builtin? name)

/-- `path` is evaluated inside `d` sections of the blocks of a program that `p` reaches. -/
def Template.Evaluates (t : Template) (cs : Contexts) (p : Program) (d : Nat) (path : Path) :
    Prop :=
  ∃ q s, t.Reaches cs p q ∧ Occurs s d q ∧ .path path ∈ s.expressions

/-- No path climbs out of the program that it stands in. -/
def Template.StaysInside (t : Template) (cs : Contexts) (p : Program) : Prop :=
  ∀ d path, t.Evaluates cs p d path → path.climbs ≤ d

/-- A name of private data that some path uses. -/
def Template.UsesDatum (t : Template) (cs : Contexts) (p : Program) (name : String) : Prop :=
  ∃ d path, t.Evaluates cs p d path ∧ .datum name ∈ path.steps

/-- No template can tell a value from itself. -/
theorem Value.indistinct_eq : Value.Indistinct (· = ·) where
  refl _ := rfl
  text h := by rw [h]
  isTruthy h := by rw [h]
  isNull h := by rw [h]
  elements? {v w} h := by
    subst h
    exact rel_refl (fun items => List.forall₂_same.mpr fun _ _ => rfl) _
  entries? {v w} h := by
    subst h
    exact rel_refl (fun entries => List.forall₂_same.mpr fun _ _ => ⟨rfl, rfl⟩) _
  access {v w} h key := by
    subst h
    exact .refl (rel_refl fun _ => rfl) _

section
variable {t : Template} {cs : Contexts}

theorem textsAlike_self : TextsAlike t cs cs := ⟨fun _ => rfl, fun _ => rfl⟩

theorem Template.OnlyBuiltins.shares (hb : t.OnlyBuiltins cs) (name : String) :
    t.SharesBuiltin cs cs name :=
  ⟨rfl, fun helper h => ⟨name, by simpa [hb name] using h⟩⟩

/-- Where only helpers of every template are called, statements fit wherever their paths do. -/
theorem fits_of_onlyBuiltins (hb : t.OnlyBuiltins cs) {N : String → Prop} {k : ℕ∞} {s : Statement}
    (hw : ∀ e ∈ s.expressions, e.Within N k) : Fits t cs cs N (· = ·) k s where
  helper name _ := hb.shares name
  inserted _ _ _ _ := rfl
  within := hw
  shown _ _ := rfl

/-- A program renders to one result in two scopes with one value that agree on the private data that
it names, if none of its paths climbs out of it. -/
theorem result_eq_of_staysInside (hb : t.OnlyBuiltins cs) {p : Program} (hp : t.StaysInside cs p)
    (f : String → Value → Render String) (room : Nat) {s s' : Scope} (hv : s.value = s'.value)
    (hd : ∀ name, t.UsesDatum cs p name → s.data.get? name = s'.data.get? name) :
    ((renderProgram t f room p s).run cs).result =
      ((renderProgram t f room p s').run cs).result := by
  have hfits : ∀ q, t.Reaches cs p q →
      AtDepth (fun d => Fits t cs cs (t.UsesDatum cs p) (· = ·) (0 + d)) 0 q := by
    intro q hq x d hx
    apply fits_of_onlyBuiltins hb
    rintro e he path rfl
    have hevaluates : t.Evaluates cs p d path := ⟨q, x, hq, hx, he⟩
    have hclimbs := hp d path hevaluates
    refine ⟨by simpa using hclimbs, fun name hname => ⟨d, path, hevaluates, hname⟩⟩
  have hs : ScopeAlike (· = ·) (t.UsesDatum cs p) 0 s s' := by
    intro i hi
    obtain rfl : i = 0 := by simpa using hi
    refine .some ⟨hv, fun name hname => ?_⟩
    have hdata := hd name hname
    rw [Scope.data, Scope.data] at hdata
    rw [hdata]
    exact rel_refl (fun _ => rfl) _
  have halike : Render.Alike (fun _ => False) cs cs (· = ·) (renderProgram t f room p s)
      (renderProgram t f room p s') :=
    alike_renderProgram Value.indistinct_eq textsAlike_self .eq hfits room .self hs
  exact (halike.right fun _ _ h => h).2.eq

/-! Wrapping in a block. -/

theorem result_headHelper? (hb : t.OnlyBuiltins cs) (r : Renderer) (hr : r.template = t)
    (path? : Option Path) :
    (r.headHelper? path?).Keeps cs ∧
      ((r.headHelper? path?).run cs).result =
        .ok ((path?.bind Path.helperName?).bind fun name => (builtin? name).map (name, ·)) := by
  subst hr
  unfold Renderer.headHelper?
  cases path?.bind Path.helperName? with
  | none => exact ⟨.pure none, rfl⟩
  | some name =>
    have hkeeps : (r.template.helper? name).Keeps cs := r.template.keeps_helper? name
    refine ⟨hkeeps.bind fun _ _ => .pure _, ?_⟩
    rw [Render.result_bind hkeeps, hb name]
    rfl

/-- A block that names a helper of every template and has one parameter is a call of that helper. -/
theorem result_block (hb : t.OnlyBuiltins cs) (r : Renderer) (hr : r.template = t) {s : Scope}
    {e : Expression} {v : Value} (he : ((Render.evaluate s e).run cs).result = .ok v)
    {name : String} {helper : Helper} (hh : builtin? name = some helper) (source : String)
    (main inverse : Program) :
    ((r.statement s (.block ⟨[.field name], source⟩ ⟨[e], {}⟩ main inverse)).run cs).result =
      (((helper
        { name, kind := .block, context := s.value, data := s.data, params := [v], named := []
          mainEmpty := main.isEmpty, inverseEmpty := inverse.isEmpty }).perform
        ⟨r.template, fun
          | .main, w, d => r.program (s.child w d) main
          | .inverse, w, d => r.program (s.child w d) inverse, r.standAlone⟩).run cs).result := by
  obtain ⟨hkeeps, hhead⟩ := result_headHelper? hb r hr (some ⟨[.field name], source⟩)
  have hfound : ((some (⟨[.field name], source⟩ : Path)).bind Path.helperName?).bind
      (fun name => (builtin? name).map (name, ·)) = some (name, helper) := by
    simp [Path.helperName?, hh]
  rw [hfound] at hhead
  have hall : Render.evaluateAll s [e] = (do return [← Render.evaluate s e]) := by
    simp [Render.evaluateAll]
  rw [Renderer.statement, Render.result_bind hkeeps, hhead]
  dsimp only [Except.bind]
  rw [Renderer.invoke, hall, bind_assoc, Render.result_bind (Render.keeps_evaluate s e cs), he]
  rfl

/-- A block of `if` shows one of its sections, in a scope inside with the same value and data. -/
theorem result_if (hb : t.OnlyBuiltins cs) (r : Renderer) (hr : r.template = t) {s : Scope}
    {c : Expression} {v : Value} (hc : ((Render.evaluate s c).run cs).result = .ok v)
    (source : String) (main inverse : Program) :
    ((r.statement s (.block ⟨[.field "if"], source⟩ ⟨[c], {}⟩ main inverse)).run cs).result =
      ((r.program (s.child s.value s.data) (if v.isTruthy then main else inverse)).run
        cs).result := by
  rw [result_block hb r hr hc (show builtin? "if" = some Builtin.ifHelper from rfl)]
  cases htruthy : v.isTruthy with
  | true => simp [Builtin.ifHelper, Call.param?, htruthy, Action.branch, Action.perform_renderThen]
  | false => simp [Builtin.ifHelper, Call.param?, htruthy, Action.branch, Action.perform_renderThen]

theorem program_singleton (r : Renderer) (s : Scope) (x : Statement) :
    r.program s [x] = r.statement s x := by
  simp [Renderer.program]

theorem exists_renderer (t : Template) (f : String → Value → Render String) (room : Nat) :
    ∃ enter, ∀ p s, renderProgram t f room p s = Renderer.program ⟨t, f, enter⟩ s p := by
  cases room with
  | zero => exact ⟨none, fun _ _ => rfl⟩
  | succ room => exact ⟨some (renderProgram t f room), fun _ _ => rfl⟩

/-- Scopes are local. Where only the helpers of every template are called and no path climbs out of
the program that it stands in, a program renders alike in any two scopes with one value that agree
on the private data that it names; so it does in a scope inside with the same value and data, and
as the main section of a block of `if` that is true. -/
theorem render_local (hb : t.OnlyBuiltins cs) {p : Program} (hp : t.StaysInside cs p)
    (f : String → Value → Render String) (room : Nat) {s s' : Scope} (hv : s.value = s'.value)
    (hd : ∀ name, t.UsesDatum cs p name → s.data.get? name = s'.data.get? name) :
    ((renderProgram t f room p s).run cs).result = ((renderProgram t f room p s').run cs).result ∧
      ((renderProgram t f room p (s.child s.value s.data)).run cs).result =
        ((renderProgram t f room p s).run cs).result ∧
      ∀ c v source inverse, ((Render.evaluate s c).run cs).result = .ok v → v.isTruthy →
        ((renderProgram t f room [.block ⟨[.field "if"], source⟩ ⟨[c], {}⟩ p inverse] s).run
          cs).result = ((renderProgram t f room p s).run cs).result := by
  have hchild : ((renderProgram t f room p (s.child s.value s.data)).run cs).result =
      ((renderProgram t f room p s).run cs).result :=
    result_eq_of_staysInside hb hp f room rfl fun _ _ => rfl
  refine ⟨result_eq_of_staysInside hb hp f room hv hd, hchild, ?_⟩
  intro c v source inverse hc htruthy
  obtain ⟨enter, hr⟩ := exists_renderer t f room
  rw [← hchild, hr, hr, program_singleton, result_if hb _ rfl hc, htruthy]
  rfl

/-- A scope with a true `@k`, and one with the same value, more private data and a scope around it:
in both of them a path that climbs out of a block of `if` shows a field of the value. -/
theorem render_local_climbing :
    let t : Template := ⟨"", {}, .global, none⟩
    let p : Program := [.block ⟨[.field "if"], "if"⟩ ⟨[.path ⟨[.datum "k"], "@k"⟩], {}⟩
      [.tag (.path ⟨[.parent, .field "x"], "../x"⟩) {} true] [.raw "none"]]
    let data : PrivateData := (∅ : PrivateData).insert "k" (.bool true)
    let s : Scope := (Scope.root (.object [("x", .string "a")])).withData data
    let s' : Scope := (Scope.root .null).child (.object [("x", .string "a")])
      (data.insert "other" .null)
    s.value = s'.value ∧
      ((renderProgram t (fun _ _ => pure "") 64 p s).run .empty).result = .ok "a" ∧
      ((renderProgram t (fun _ _ => pure "") 64 p s').run .empty).result = .ok "a" := by
  intro t p data s s'
  have hevaluates : ∀ d path, t.Evaluates .empty p d path →
      d = 0 ∧ path = ⟨[.datum "k"], "@k"⟩ ∨ d = 1 ∧ path = ⟨[.parent, .field "x"], "../x"⟩ := by
    rintro d path ⟨q, x, hq, hx, hpath⟩
    obtain rfl := hq.eq_self (by simp [p])
    simp only [p] at hx
    cases hx with
    | here => exact .inl ⟨rfl, by simpa [Statement.expressions, Arguments.expressions] using hpath⟩
    | later hx => cases hx
    | main hx =>
      cases hx with
      | here =>
        exact .inr ⟨rfl, by simpa [Statement.expressions, Arguments.expressions] using hpath⟩
      | later hx => cases hx
    | inverse hx =>
      cases hx with
      | here => simp [Statement.expressions] at hpath
      | later hx => cases hx
  have hp : t.StaysInside .empty p := by
    intro d path hpath
    rcases hevaluates d path hpath with ⟨rfl, rfl⟩ | ⟨rfl, rfl⟩ <;> decide
  have hd : ∀ name, t.UsesDatum .empty p name → s.data.get? name = s'.data.get? name := by
    rintro name ⟨d, path, hpath, hname⟩
    rcases hevaluates d path hpath with ⟨-, rfl⟩ | ⟨-, rfl⟩
    · obtain rfl : name = "k" := by simpa using hname
      rfl
    · simp at hname
  have hlocal := render_local (fun name => rfl) hp (fun _ _ => pure "") 64
    (show s.value = s'.value from rfl) hd
  have hshown : ((renderProgram t (fun _ _ => pure "") 64 p s).run .empty).result = .ok "a" := rfl
  exact ⟨rfl, hshown, hlocal.1.symm.trans hshown⟩

end

end Stencil
