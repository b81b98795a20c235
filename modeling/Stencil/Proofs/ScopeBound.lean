import Stencil.Proofs.Frames.Unrolling

/-!
How deep scopes are. A rendering opens frames inside one another no more often than blocks may nest
in a template and in the bodies of as many partials as the limit allows, and once more for each of
these bodies and for a tag inside of them. So no scope has more scopes than that around it.
-/
namespace Stencil

/-- At most `bound` scopes are around that of a frame, or one more if it has no statements. -/
def Frame.Within (bound : Nat) (g : Frame) : Prop :=
  g.scope.outer.length ≤ if g.program.isEmpty then bound + 1 else bound

instance (bound : Nat) : DecidablePred (Frame.Within bound) := fun _ => Nat.decLe _ _

/-- The second frame is that of a section of a tag in the first, which is empty. -/
def Frame.HasTagSection (g h : Frame) : Prop :=
  ∃ head arguments escaped v d, Statement.tag head arguments escaped ∈ g.program ∧
    h = ⟨g.around, [], g.scope.child v d, h.contexts⟩

section
variable {t : Template} {f : String → Value → Render String} {cs : Contexts} {bound : Nat}
  {g h : Frame}

theorem Frame.Bounded.within (hg : g.Bounded t (bound + 1)) : g.Within bound := by
  have houter := hg.outer
  obtain ⟨n, p, s, ds⟩ := g
  cases p with
  | nil => exact Nat.le_of_add_right_le houter
  | cons x rest =>
    simp only [left, List.length_cons] at houter
    change s.outer.length ≤ bound
    omega

/-- Only a tag opens a frame where the scopes are as many as the bound. -/
theorem Frame.Opens.outer_le (hgh : g.Opens t f h) (hg : g.Bounded t (bound + 1)) :
    h.scope.outer.length ≤ bound ∨ g.HasTagSection h := by
  have houter := hg.outer
  cases hgh with
  | @statement n before x rest s ds _ _ _ _ _ hx =>
    simp only [left, programDepth_append, programDepth, List.length_append, List.length_cons]
      at houter
    have hchild := hx.outer_le
    have hroom (hn : n < t.options.partialLimit) :
        1 ≤ (maxBlockDepth + 1) * (t.options.partialLimit - n) :=
      Nat.mul_pos (Nat.succ_pos _) (Nat.sub_pos_of_lt hn)
    cases hx with
    | @tag head arguments escaped run =>
      exact .inr ⟨head, arguments, escaped, run.value, run.data, by simp, rfl⟩
    | block =>
      rw [Statement.depth] at houter
      exact .inl (by omega)
    | body hn =>
      have hone := hroom hn
      exact .inl (by omega)
    | bodyFor hn =>
      have hone := hroom hn
      exact .inl (by omega)

/-- Where only the helpers of every template are called, no text is rendered on its own. -/
theorem Frame.result_outcome_standAlone (hb : t.OnlyBuiltins cs)
    (f f' : String → Value → Render String) (p : Program) (v : Value) :
    (Frame.outcome t f ⟨0, p, .root v, cs⟩).result =
      (Frame.outcome t f' ⟨0, p, .root v, cs⟩).result := by
  have halike : Render.Alike (fun _ => False) cs cs (· = ·)
      (renderProgram t f t.options.partialLimit p (.root v))
      (renderProgram t f' t.options.partialLimit p (.root v)) := by
    refine alike_renderProgram (N := fun _ => True) Value.indistinct_eq textsAlike_self .eq ?_ _
      .self (ScopeAlike.root rfl ⊤)
    intro q _ x d _
    rw [top_add]
    exact fits_of_onlyBuiltins_everywhere hb x
  rw [renderProgram_eq, renderProgram_eq] at halike
  exact (halike.right fun _ _ => id).2.eq

end

/-- Rendering is bounded. A template that parses renders to a text or an error. Its rendering is a
recursion from frame to frame; the frames that are reached are open inside one another no more often
than blocks may nest in the template and in the bodies of as many partials as the limit allows, and
once more for each of these bodies and for a tag inside of them all. No scope has more scopes around
it than that, where the last is only for a section of a tag, which is empty. Each frame opens only
so many others, with less left inside each, and where the recursion would go on deeper than that,
or in a scope with more around it, anything at all may be put in place of the rendering. -/
theorem render_bounded (t : Template) (cs : Contexts) {p : Program} (hp : parse t.source = .ok p)
    (v : Value) :
    let start : Frame := ⟨0, p, .root v, cs⟩
    let limit := t.options.partialLimit
    let bound := maxBlockDepth * (limit + 1) + limit
    ((∃ text, ((t.render v).run cs).result = .ok text) ∨
        ∃ e, ((t.render v).run cs).result = .error e) ∧
      (t.render v).run cs = start.outcome t (Template.standAlone Template.standAloneLimit) ∧
      (t.OnlyBuiltins cs → ∀ f, (start.outcome t f).result = ((t.render v).run cs).result) ∧
      ∀ f, (∀ other, start.unroll t f other (Frame.Within bound) (bound + 2) =
          start.outcome t f) ∧
        (∀ g, Relation.ReflTransGen (Frame.Opens t f) start g →
          g.around ≤ limit ∧ programDepth g.program ≤ maxBlockDepth ∧
            (g.scope.outer.length ≤ bound ∨ g.scope.outer.length = bound + 1 ∧
              ∃ h, Relation.ReflTransGen (Frame.Opens t f) start h ∧ h.HasTagSection g) ∧
            {h | g.Opens t f h}.Finite ∧ ∀ h, g.Opens t f h → h.left t < g.left t) ∧
        ∀ gs, (start :: gs).IsChain (Frame.Opens t f) → gs.length ≤ bound + 1 := by
  intro start limit bound
  have hstart : start.Bounded t (bound + 1) := Frame.bounded_start (programDepth_le_of_parse hp) v
  have houtcome :
      (t.render v).run cs = start.outcome t (Template.standAlone Template.standAloneLimit) := by
    rw [Template.render, Template.renderLevel_eq, Template.renderWith, hp]
    exact congrArg (Render.run · cs) (renderProgram_eq t _ _ p (.root v))
  refine ⟨?_, houtcome, fun hb f => ?_, fun f => ⟨fun other => ?_, ?_, fun gs hgs => ?_⟩⟩
  · cases hr : ((t.render v).run cs).result with
    | ok text => exact .inl ⟨text, rfl⟩
    | error e => exact .inr ⟨e, rfl⟩
  · rw [houtcome]
    exact Frame.result_outcome_standAlone hb _ _ p v
  · have hleft : start.left t ≤ bound + 1 := Nat.le_of_add_left_le hstart.outer
    exact Frame.unroll_eq (Nat.lt_succ_of_le hleft) fun g hg => (hstart.reached hg).within
  · intro g hg
    have hbounded := hstart.reached hg
    refine ⟨hbounded.around, hbounded.depth, ?_, finite_opens t f g, fun h hgh => hgh.left_lt⟩
    have houter : g.scope.outer.length ≤ bound + 1 := Nat.le_of_add_right_le hbounded.outer
    cases hg with
    | refl => exact .inl (Nat.zero_le _)
    | @tail h _ hh hhg =>
      rcases hhg.outer_le (hstart.reached hh) with hle | htag
      · exact .inl hle
      · exact (Nat.le_or_eq_of_le_succ houter).imp_right fun heq => ⟨heq, h, hh, htag⟩
  · have hlength := Frame.length_le_left hgs
    have houter := hstart.outer
    omega

/-- A partial that inserts itself, under a limit of two: its body is open in itself twice, each time
in a scope of its own, and the rendering goes no deeper. -/
theorem render_bounded_loop :
    let cs := Contexts.empty.update .global (·.insertPartial "loop" loopPartial)
    let t : Template := ⟨loopPartial.source, { partialLimit := 2 }, .global, none⟩
    let start : Frame := ⟨0, loopPartial.program, .root .null, cs⟩
    let bound := maxBlockDepth * 3 + 2
    parse t.source = .ok loopPartial.program ∧
      ((t.render .null).run cs).result = .error (.recursionLimit "loop" 2) ∧
      ∀ f, (∃ g h : Frame, [start, g, h].IsChain (Frame.Opens t f) ∧ h.scope.outer.length = 2) ∧
        (∀ gs, (start :: gs).IsChain (Frame.Opens t f) → gs.length ≤ bound + 1) ∧
        ∀ other, (start.unroll t f other (Frame.Within bound) (bound + 2)).result =
          .error (.recursionLimit "loop" 2) := by
  intro cs t start bound
  obtain ⟨-, houtcome, hany, hbounds⟩ := render_bounded t cs loopPartial.parses .null
  have hresult : ((t.render .null).run cs).result = .error (.recursionLimit "loop" 2) := by
    rw [houtcome]
    rfl
  refine ⟨loopPartial.parses, hresult, fun f => ?_⟩
  obtain ⟨hunroll, -, hchain⟩ := hbounds f
  have hopens (n : Nat) (hn : n < 2) (s : Scope) : Frame.Opens t f ⟨n, loopPartial.program, s, cs⟩
      ⟨n + 1, loopPartial.program, s.child s.value (s.data.insertAll []), cs⟩ := by
    have hbefore : ((t.rendererIn f n).program s [.raw "x"]).run cs = ⟨.ok "x", cs, []⟩ := rfl
    exact .statement hbefore (.bodyFor hn rfl rfl rfl)
  have hfirst := hopens 0 (by decide) (.root .null)
  have hsecond := hopens 1 (by decide) ((Scope.root .null).child .null (NameMap.insertAll ∅ []))
  refine ⟨⟨_, _, .cons_cons hfirst (.cons_cons hsecond (.singleton _)), rfl⟩, hchain, ?_⟩
  intro other
  rw [hunroll other, hany (fun _ => rfl) f]
  exact hresult

/-! The scope of a tag inside as many blocks as may be nested. -/

def ifPath : Path := ⟨[.field "if"], "[if]"⟩

def ifTrue : Arguments := ⟨[.numeral ⟨.int 1, true, "true"⟩], {}⟩

/-- Calls of `if` inside one another, `n` of them: the innermost is a tag, all others are blocks. -/
def ifNest : Nat → Program
  | 0 => []
  | 1 => [.tag (.path ifPath) ifTrue false]
  | n + 2 => [.block ifPath ifTrue (ifNest (n + 1)) []]

/-- The text of a tag that calls `if` inside `n` blocks that do so as well. -/
def ifText : Nat → String
  | 0 => "\x7b\x7b&[if] true\x7d\x7d"
  | n + 1 => "\x7b\x7b#[if] true\x7d\x7d" ++ ifText n ++ "\x7b\x7b/[if]\x7d\x7d"

/-- A template of such a text that may not enter any partial. -/
def ifTemplate (n : Nat) : Template := ⟨ifText n, { partialLimit := 0 }, .global, none⟩

section
open Written

theorem programText_ifNest (n : Nat) (beforeTag : Bool) :
    ProgramText beforeTag (ifNest (n + 1)) (ifText n).toList := by
  have hparams : ParamsText ifTrue.positional ifTrue.named.entries _ := .positional .space .nil
  have hcall (head : Expression) : CallText head ifTrue _ := .intro .nil hparams .nil
  induction n generalizing beforeTag with
  | zero => exact .tag (.ampersand (hcall _)) .nil
  | succ n ih =>
    have hblock : ProgramText beforeTag (ifNest (n + 2)) _ :=
      .block (.opening (hcall _)) (ih true) (.closing .nil .nil) .nil
    rw [ifText, String.toList_append, String.toList_append]
    rw [List.append_nil] at hblock
    exact hblock

theorem depth_ifNest (n : Nat) : programDepth (ifNest (n + 1)) = n := by
  induction n with
  | zero => rfl
  | succ n ih => simp [ifNest, programDepth, Statement.depth, ih]

theorem writable_ifNest {n : Nat} (hn : n ≤ maxBlockDepth) : Writable (ifNest (n + 1)) := by
  refine ⟨?_, (depth_ifNest n).trans_le hn⟩
  have hpath : WritablePath ifPath := writablePath_plain (by decide) (by decide)
  have harguments : WritableArguments ifTrue := writableArguments_single (.inl rfl)
  have hform (n : Nat) (beforeTag : Bool) : WritableProgram beforeTag (ifNest (n + 1)) := by
    induction n generalizing beforeTag with
    | zero => exact .tag hpath harguments .nil
    | succ n ih => exact .block hpath harguments (ih true) .nil .nil
  exact hform n false

end

/-- A call of `if` for a truth is its main section in the scope of the call. -/
theorem Renderer.invoke_ifTrue (r : Renderer) (s : Scope) (name : String) (kind : CallKind)
    (mainEmpty inverseEmpty : Bool) (inSection : Section → Value → PrivateData → Render String) :
    r.invoke s name Builtin.ifHelper kind ifTrue mainEmpty inverseEmpty inSection =
      inSection .main s.value s.data := by
  have hparams : Render.evaluateAll s ifTrue.positional = pure [.bool true] := rfl
  have hnamed : Render.evaluateNamed s ifTrue.named.entries = pure [] := rfl
  rw [invoke, hparams, hnamed]
  simp only [pure_bind]
  exact (Action.perform_renderThen _ .main s.value s.data .text).trans (bind_pure _)

section
variable {m : Nat} {f : String → Value → Render String} {inner : Frame → Outcome String} {k : Nat}
  {s : Scope}

/-- The frame that one of the blocks, or the tag inside of them, opens. -/
theorem Frame.opens_ifNest (m : Nat) (f : String → Value → Render String) (k : Nat) (s : Scope) :
    Frame.Opens (ifTemplate m) f ⟨0, ifNest (k + 1), s, .empty⟩
      ⟨0, ifNest k, s.child s.value s.data, .empty⟩ := by
  have hbefore : (((ifTemplate m).rendererIn f 0).program s []).run .empty = ⟨.ok "", .empty, []⟩ :=
    rfl
  cases k with
  | zero =>
    have hrun : (Builtin.ifHelper (s.tagCall "if" [.bool true] [])).Runs
        ((ifTemplate m).blockMeans f 0 s [] []) .empty ⟨.main, s.value, s.data, .empty⟩ := .here
    exact .statement hbefore (.tag (.intro rfl rfl rfl rfl hrun))
  | succ k =>
    have hrun : (Builtin.ifHelper (s.blockCall "if" [.bool true] [] (ifNest (k + 1)) [])).Runs
        ((ifTemplate m).blockMeans f 0 s (ifNest (k + 1)) []) .empty
        ⟨.main, s.value, s.data, .empty⟩ := .here
    exact .statement hbefore (.block (.intro rfl rfl rfl rfl hrun))

/-- How it goes is how that frame goes. -/
theorem Frame.expand_ifNest :
    Frame.expand (ifTemplate m) f inner ⟨0, ifNest (k + 1), s, .empty⟩ =
      inner ⟨0, ifNest k, s.child s.value s.data, .empty⟩ := by
  have hhead : (((ifTemplate m).rendererOver f inner 0).headHelper? (some ifPath)).run .empty =
      ⟨.ok (some ("if", Builtin.ifHelper)), .empty, []⟩ := rfl
  have hlast (x : Statement) : (ifTemplate m).programOver f inner 0 s [x] =
      (ifTemplate m).statementOver f inner 0 s x := by
    simp only [Template.programOver, Render.append, pure_bind, String.append_empty, bind_pure]
  rw [expand]
  cases k with
  | zero =>
    dsimp only [ifNest]
    rw [hlast, Template.statementOver]
    simp only [Bool.false_eq_true, if_false, bind_pure]
    rw [Template.tagTextOver, Expression.asPath?, Render.run_bind_of_run hhead]
    dsimp only
    rw [Renderer.invoke_ifTrue]
    rfl
  | succ k =>
    dsimp only [ifNest]
    rw [hlast, Template.statementOver, Render.run_bind_of_run hhead]
    dsimp only
    rw [Renderer.invoke_ifTrue]
    rfl

theorem Frame.outcome_ifNest :
    Frame.outcome (ifTemplate m) f ⟨0, ifNest k, s, .empty⟩ = ⟨.ok "", .empty, []⟩ := by
  induction k generalizing s with
  | zero => rfl
  | succ k ih =>
    have hopened := Frame.expand_eq (t := ifTemplate m) (f := f)
      (g := ⟨0, ifNest (k + 1), s, .empty⟩) fun _ _ => rfl
    rw [← hopened, expand_ifNest, ih]

/-- Each of the frames is open in the one before it. -/
theorem Frame.reached_ifNest :
    ∃ s', s'.outer.length = s.outer.length + k ∧
      Relation.ReflTransGen (Frame.Opens (ifTemplate m) f) ⟨0, ifNest k, s, .empty⟩
        ⟨0, [], s', .empty⟩ := by
  induction k generalizing s with
  | zero => exact ⟨s, rfl, .refl⟩
  | succ k ih =>
    obtain ⟨s', houter, hreached⟩ := ih (s := s.child s.value s.data)
    refine ⟨s', ?_, .head (opens_ifNest m f k s) hreached⟩
    rw [houter, Scope.child, List.length_cons]
    omega

/-- Without the scopes beyond a bound, the rendering is what is put in place of them. -/
theorem Frame.unroll_ifNest {bound : Nat} (other : Frame → Outcome String) (depth : Nat)
    (hs : bound < s.outer.length + k) :
    ∃ g, Frame.unroll (ifTemplate m) f other (fun g => g.scope.outer.length ≤ bound) depth
      ⟨0, ifNest k, s, .empty⟩ = other g := by
  induction depth generalizing k s with
  | zero => exact ⟨_, rfl⟩
  | succ depth ih =>
    by_cases hkept : s.outer.length ≤ bound
    · obtain ⟨k, rfl⟩ : ∃ j, k = j + 1 := Nat.exists_eq_succ_of_ne_zero (by omega)
      rw [unroll, if_pos hkept, expand_ifNest]
      refine ih ?_
      rw [Scope.child, List.length_cons]
      omega
    · rw [unroll, if_neg hkept]
      exact ⟨_, rfl⟩

end

/-- The scope of a tag counts as well. Where as many blocks as may be nested stand around a tag, and
no partial may be entered, there is one more scope around that of its section than there are blocks,
and what is rendered there is what the template renders to. -/
theorem scopes_exceed_nesting :
    let t := ifTemplate maxBlockDepth
    let f := Template.standAlone Template.standAloneLimit
    let start : Frame := ⟨0, ifNest (maxBlockDepth + 1), .root .null, .empty⟩
    let bound := maxBlockDepth * (t.options.partialLimit + 1) + t.options.partialLimit
    t.OnlyBuiltins .empty ∧ parse t.source = .ok start.program ∧
      (t.render .null).run .empty = ⟨.ok "", .empty, []⟩ ∧
      (∃ g, Relation.ReflTransGen (Frame.Opens t f) start g ∧ ¬ g.scope.outer.length ≤ bound) ∧
      ∀ other depth, ∃ g,
        start.unroll t f other (fun g => g.scope.outer.length ≤ bound) depth = other g := by
  intro t f start bound
  have hparse : parse t.source = .ok start.program := by
    have hwritten := (programText_ifNest maxBlockDepth false).parse (writable_ifNest le_rfl)
    rwa [String.ofList_toList] at hwritten
  refine ⟨fun _ => rfl, hparse, ?_, ?_, fun other depth => Frame.unroll_ifNest other depth ?_⟩
  · rw [Template.render, Template.renderLevel_eq, Template.renderWith, hparse]
    exact (congrArg (Render.run · _) (renderProgram_eq t f _ _ _)).trans Frame.outcome_ifNest
  · obtain ⟨s, houter, hreached⟩ := Frame.reached_ifNest (m := maxBlockDepth) (f := f)
      (k := maxBlockDepth + 1) (s := .root .null)
    refine ⟨_, hreached, ?_⟩
    rw [houter]
    decide
  · decide

end Stencil
