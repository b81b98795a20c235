import Stencil.Proofs.Session

/-!
Partials registered in bulk. A list of texts is registered as a whole or not at all, and a rendering
that brings its own partials fails at the same text as the bulk does.
-/
namespace Stencil

/-- `e` is why the first text of a list that does not parse does not, and `name` stands beside
it. -/
def FirstInvalid (sources : List (String × String)) (name : String) (e : ParseError) : Prop :=
  ∃ before source after, sources = before ++ (name, source) :: after ∧
    (∀ entry ∈ before, ∃ p, parse entry.2 = .ok p) ∧ parse source = .error e

theorem firstInvalid_cons {entry : String × String} {rest : List (String × String)} {name : String}
    {e : ParseError} :
    FirstInvalid (entry :: rest) name e ↔
      entry.1 = name ∧ parse entry.2 = .error e ∨
        (∃ p, parse entry.2 = .ok p) ∧ FirstInvalid rest name e := by
  constructor
  · rintro ⟨_ | ⟨first, before⟩, source, after, heq, hbefore, he⟩
    · obtain ⟨rfl, rfl⟩ := List.cons.inj heq
      exact .inl ⟨rfl, he⟩
    · obtain ⟨rfl, rfl⟩ := List.cons.inj heq
      exact .inr ⟨hbefore _ (.head _), before, source, after, rfl,
        fun x hx => hbefore x (.tail _ hx), he⟩
  · rintro (⟨rfl, he⟩ | ⟨hfirst, before, source, after, rfl, hbefore, he⟩)
    · exact ⟨[], entry.2, rest, rfl, nofun, he⟩
    · refine ⟨entry :: before, source, after, rfl, fun x hx => ?_, he⟩
      rcases List.mem_cons.mp hx with rfl | hx
      · exact hfirst
      · exact hbefore x hx

theorem Partial.compile_of_ok {source : String} {p : Program} (h : parse source = .ok p) :
    Partial.compile source = .ok ⟨source, p, h⟩ :=
  Partial.compile_source ⟨source, p, h⟩

/-! The compiled texts. -/

section
variable {name source : String} {rest : List (String × String)}

theorem compileAll_of_error {e : ParseError} (h : parse source = .error e) :
    compileAll ((name, source) :: rest) = .error e := by
  rw [compileAll, Partial.compile_of_error h]
  rfl

theorem compileAll_of_ok {p : Program} (h : parse source = .ok p) :
    compileAll ((name, source) :: rest) =
      (compileAll rest).map fun partials => (name, ⟨source, p, h⟩) :: partials := by
  rw [compileAll, Partial.compile_of_ok h]
  cases compileAll rest <;> rfl

end

/-- The bulk fails with the error of the first text that does not parse. -/
theorem compileAll_eq_error {sources : List (String × String)} {e : ParseError} :
    compileAll sources = .error e ↔ ∃ name, FirstInvalid sources name e := by
  induction sources with
  | nil => simp [compileAll, FirstInvalid]
  | cons entry rest ih =>
    obtain ⟨name, source⟩ := entry
    simp only [firstInvalid_cons]
    cases h : parse source with
    | ok p =>
      rw [compileAll_of_ok h]
      cases hrest : compileAll rest <;> simp_all [Except.map]
    | error f =>
      rw [compileAll_of_error h]
      simp

/-- The bulk succeeds if every text parses, with the partials of the texts in order. -/
theorem compileAll_eq_ok {sources : List (String × String)} {partials : List (String × Partial)} :
    compileAll sources = .ok partials ↔ partials.map (fun e => (e.1, e.2.source)) = sources := by
  induction sources generalizing partials with
  | nil => exact ⟨fun h => by cases h; rfl, fun h => by rw [List.map_eq_nil_iff.mp h]; rfl⟩
  | cons entry rest ih =>
    obtain ⟨name, source⟩ := entry
    constructor
    · intro h
      cases hp : parse source with
      | error f => rw [compileAll_of_error hp] at h; cases h
      | ok p =>
        rw [compileAll_of_ok hp] at h
        cases hrest : compileAll rest with
        | error f => rw [hrest] at h; cases h
        | ok others =>
          rw [hrest] at h
          cases h
          rw [List.map_cons, ih.mp hrest]
    · intro h
      obtain ⟨first, others, rfl, hfirst, hothers⟩ := List.map_eq_cons_iff.mp h
      obtain ⟨rfl, rfl⟩ := Prod.mk.inj hfirst
      rw [compileAll_of_ok first.2.parses, ih.mpr hothers]
      rfl

theorem exists_compileAll_iff {sources : List (String × String)} :
    (∃ partials, compileAll sources = .ok partials) ↔
      ∀ entry ∈ sources, ∃ p, parse entry.2 = .ok p := by
  constructor
  · rintro ⟨partials, h⟩ entry hentry
    rw [← compileAll_eq_ok.mp h] at hentry
    obtain ⟨found, -, rfl⟩ := List.mem_map.mp hentry
    exact ⟨found.2.program, found.2.parses⟩
  · intro h
    cases hall : compileAll sources with
    | ok partials => exact ⟨partials, rfl⟩
    | error e =>
      obtain ⟨name, before, source, after, rfl, -, he⟩ := compileAll_eq_error.mp hall
      obtain ⟨p, hp⟩ := h (name, source) (by simp)
      rw [he] at hp
      cases hp

/-- What stands last for a name in a list of partials, seen as texts. -/
theorem lookup_reverse_sources (partials : List (String × Partial)) (name : String) :
    (partials.map fun e => (e.1, e.2.source)).reverse.lookup name =
      (partials.reverse.lookup name).map Partial.source := by
  rw [← List.map_reverse]
  induction partials.reverse with
  | nil => rfl
  | cons e rest ih =>
    rw [List.map_cons, Entries.lookup_cons, Entries.lookup_cons, ih]
    split <;> rfl

/-! Texts registered one by one. -/

theorem Contexts.update_update (cs : Contexts) (id : ContextId)
    (f g : ExecutionContext → ExecutionContext) :
    (cs.update id f).update id g = cs.update id fun c => g (f c) := by
  rw [update, get_update, if_pos rfl]
  simp only [update, Contexts.mk.injEq]
  funext other
  split <;> rfl

/-- A context with more partials, a later one replacing an earlier one. -/
def ExecutionContext.insertPartials (c : ExecutionContext) (partials : List (String × Partial)) :
    ExecutionContext :=
  { c with partials := c.partials.insertAll partials }

theorem Template.run_registerEach_of_ok {sources : List (String × String)}
    {partials : List (String × Partial)} (h : compileAll sources = .ok partials) (id : ContextId)
    (cs : Contexts) :
    (registerEach id sources).run cs = ⟨.ok (), cs.update id (·.insertPartials partials), []⟩ := by
  rw [compileAll_eq_ok] at h
  subst h
  induction partials generalizing cs with
  | nil =>
    rw [List.map_nil, registerEach, Render.run_pure, cs.update_self]
    rfl
  | cons e rest ih =>
    have hrest := ih (cs.update id (·.insertPartial e.1 e.2))
    rw [Contexts.update_update] at hrest
    rw [List.map_cons, registerEach, Partial.compile_source, Render.run_bind_of_ok rfl]
    exact hrest

/-- The texts before the first that does not parse are registered, whatever becomes of it. -/
theorem Template.run_registerEach_of_error {sources : List (String × String)} {name : String}
    {e : ParseError} (h : FirstInvalid sources name e) (id : ContextId) (cs : Contexts) :
    ∃ f, (registerEach id sources).run cs =
      ⟨.error (.invalidPartial name e), cs.update id f, []⟩ := by
  induction sources generalizing cs with
  | nil =>
    obtain ⟨before, source, after, heq, -⟩ := h
    cases before <;> cases heq
  | cons entry rest ih =>
    rcases firstInvalid_cons.mp h with ⟨rfl, he⟩ | ⟨⟨p, hp⟩, hrest⟩
    · refine ⟨fun c => c, ?_⟩
      rw [registerEach, Partial.compile_of_error he, cs.update_self rfl]
      rfl
    · obtain ⟨f, hf⟩ := ih hrest (cs.update id (·.insertPartial entry.1 ⟨entry.2, p, hp⟩))
      refine ⟨fun c => f (c.insertPartial entry.1 ⟨entry.2, p, hp⟩), ?_⟩
      rw [registerEach, Partial.compile_of_ok hp, Render.run_bind_of_ok rfl]
      rw [Contexts.update_update] at hf
      exact hf

/-- Texts that all parse are registered one by one as they are in bulk. -/
theorem Session.runAll_registerPartial {s : Session} {id : ContextId} (hid : s.has id = true)
    {sources : List (String × String)} {partials : List (String × Partial)}
    (h : compileAll sources = .ok partials) :
    s.runAll (sources.map fun e => .onContext id (.registerPartial e.1 e.2)) =
      (s.change id (·.insertPartials partials), sources.map fun _ => ⟨.done, []⟩) := by
  rw [compileAll_eq_ok] at h
  subst h
  induction partials generalizing s with
  | nil => exact Prod.ext (s.change_self id rfl).symm rfl
  | cons e rest ih =>
    have hstep : s.step (.onContext id (.registerPartial e.1 e.2.source)) =
        (s.change id (·.insertPartial e.1 e.2), ⟨.done, []⟩) := by
      rw [step, if_pos hid, onContext, ExecutionContext.registerPartial, Partial.compile_source]
      rfl
    have hrest := ih (s := s.change id (·.insertPartial e.1 e.2)) hid
    rw [List.map_cons, List.map_cons, runAll, hstep]
    dsimp only
    rw [hrest]
    refine Prod.ext ?_ rfl
    simp only [change, Contexts.update_update]
    rfl

/-- Texts of which one does not parse are not registered in bulk, not even those before it. -/
theorem Session.step_registerPartials_of_error {s : Session} {id : ContextId}
    (hid : s.has id = true) {sources : List (String × String)} {e : ParseError}
    (h : compileAll sources = .error e) :
    s.step (.onContext id (.registerPartials sources)) = (s, ⟨.failed (.parse e), []⟩) := by
  rw [step, if_pos hid, onContext, ExecutionContext.registerPartials, h]
  rfl

theorem Session.step_registerPartials_of_ok {s : Session} {id : ContextId}
    (hid : s.has id = true) {sources : List (String × String)} {partials : List (String × Partial)}
    (h : compileAll sources = .ok partials) :
    s.step (.onContext id (.registerPartials sources)) =
      (s.change id (·.insertPartials partials), ⟨.done, []⟩) := by
  rw [step, if_pos hid, onContext, ExecutionContext.registerPartials, h]
  rfl

/-! Renderings with partials of their own. -/

/-- The context that is kept for a rendering under the identifier of `.made j`. -/
def Renaming.settledAs (j : Nat) : Renaming where
  rel a b := a = .scratch Template.standAloneLimit ∧ b = .made j ∨
    a = b ∧ a ≠ .scratch Template.standAloneLimit ∧ a ≠ .made j
  unique := by
    rintro a b c d (⟨rfl, rfl⟩ | ⟨rfl, ha, hb⟩) (⟨rfl, rfl⟩ | ⟨rfl, hc, hd⟩)
    · exact iff_of_true rfl rfl
    · exact iff_of_false (Ne.symm hc) (Ne.symm hd)
    · exact iff_of_false ha hb
    · exact Iff.rfl
  global := .inr (by simp)
  scratch hlevel := .inr ⟨rfl, fun h => Nat.ne_of_lt hlevel (ContextId.scratch.inj h), by simp⟩

theorem Render.run_inScratch {α : Type} (id : ContextId) (m : Render α) (cs : Contexts) :
    (inScratch id m).run cs =
      { m.run (cs.set id {}) with
        contexts := (m.run (cs.set id {})).contexts.set id (cs.get id) } := rfl

theorem Render.run_update_bind {α : Type} (id : ContextId)
    (f : ExecutionContext → ExecutionContext) (m : Unit → Render α) (cs : Contexts) :
    (update id f >>= m).run cs = (m ()).run (cs.update id f) := by
  rw [run_bind_of_ok rfl]
  rfl

namespace Template

variable {sources : List (String × String)} (source : String) (v : Value)
  (helpers : List (String × Helper)) (cs : Contexts)

/-- What is registered before a text that does not parse is gone with the context that was kept for
it, and nothing is rendered. -/
theorem run_renderOnce_of_error {name : String} {e : ParseError}
    (h : FirstInvalid sources name e) :
    (renderOnce source v helpers sources).run cs = ⟨.error (.invalidPartial name e), cs, []⟩ := by
  let own := ContextId.scratch standAloneLimit
  let filled := (cs.set own {}).update own (·.registerHelpers helpers)
  obtain ⟨f, hf⟩ := run_registerEach_of_error h own filled
  have hrestored : (filled.update own f).set own (cs.get own) = cs := by
    simp only [filled, Contexts.set, Contexts.update_update]
    exact cs.update_self rfl
  rw [renderOnce, Render.run_inScratch, Render.run_update_bind,
    Render.run_bind_of_error (by rw [hf]), hf]
  dsimp only
  rw [hrestored]

/-- Otherwise the template is rendered in contexts of which its own holds what it brings. -/
theorem run_renderOnce_of_ok {partials : List (String × Partial)}
    (h : compileAll sources = .ok partials) :
    let own := ContextId.scratch standAloneLimit
    let inner := (render { source, own } v).run
      (cs.set own (({} : ExecutionContext).registerHelpers helpers |>.insertPartials partials))
    (renderOnce source v helpers sources).run cs =
      { inner with contexts := inner.contexts.set own (cs.get own) } := by
  intro own inner
  have hown := run_registerEach_of_ok h own ((cs.set own {}).update own (·.registerHelpers helpers))
  rw [renderOnce, Render.run_inScratch, Render.run_update_bind,
    Render.run_bind_of_ok (by rw [hown]), hown]
  simp only [Contexts.set, Contexts.update_update, List.nil_append]
  rfl

end Template

theorem Session.contexts_render {s : Session} {i : TemplateId} {x : TemplateState}
    (hx : s.templates[i]? = some x) (v : Value) :
    (s.step (.onTemplate i (.render v))).1.contexts =
      ((x.template.render v).run s.contexts).contexts := by
  rw [step, onTemplate, hx]
  simp only [x.outcome_eq, Template.renderCompiled_parse]
  rfl

/-- A rendering that brings helpers and partials does as a new template with these in its own
context. -/
theorem Session.render_once {s : Session} {sources : List (String × String)}
    {partials : List (String × Partial)} (h : compileAll sources = .ok partials) (source : String)
    (v : Value) (helpers : List (String × Helper)) {s' : Session}
    (hs' : s' = (s.runAll [.makeTemplate source none {},
      .onContext s.nextContext (.registerHelpers helpers),
      .onContext s.nextContext (.registerPartials sources)]).1) :
    let once := (Template.renderOnce source v helpers sources).run s.contexts
    let fresh := s'.step (.onTemplate s.templates.length (.render v))
    fresh.2.answer = (once.reply .text).answer ∧
      fresh.2.events.map Event.unplaced = once.events.map Event.unplaced ∧
      ∀ id, s.has id = true → fresh.1.contexts.get id = once.contexts.get id := by
  intro once fresh
  let t : Template := { source, own := s.nextContext }
  let added := (s.addTemplate (.fresh t)).1
  have hnew : added.has s.nextContext = true := decide_eq_true (Nat.lt_succ_self _)
  have hmake : (s.step (.makeTemplate source none {})).1 = added := rfl
  have hhelpers : (added.step (.onContext s.nextContext (.registerHelpers helpers))).1 =
      added.change s.nextContext (·.registerHelpers helpers) := by
    rw [step, if_pos hnew]
    rfl
  have hnew' : (added.change s.nextContext (·.registerHelpers helpers)).has s.nextContext = true :=
    hnew
  have hpartials := step_registerPartials_of_ok hnew' h
  have hs : s' = (added.change s.nextContext (·.registerHelpers helpers)).change s.nextContext
      (·.insertPartials partials) := by
    simp only [hs', runAll, hmake, hhelpers, hpartials]
  have hx : s'.templates[s.templates.length]? = some (.fresh t) := by
    rw [hs]
    exact List.getElem?_concat_length
  -- both meet helpers and partials alone in their own context, and the same in all others
  have hcarries : (Renaming.settledAs s.made).Carries
      (s.contexts.set (.scratch Template.standAloneLimit)
        (({} : ExecutionContext).registerHelpers helpers |>.insertPartials partials))
      s'.contexts := by
    rw [hs]
    rintro a b (⟨rfl, rfl⟩ | ⟨rfl, ha, hne⟩)
    · simp [change, added, addTemplate, addContext, Contexts.set, nextContext]
    · simp [change, added, addTemplate, addContext, Contexts.set, nextContext, ha, hne]
  have htwins : (Renaming.settledAs s.made).Twins
      { source, own := .scratch Template.standAloneLimit } t := ⟨rfl, rfl, .inl ⟨rfl, rfl⟩, .none⟩
  have hsame := Renaming.mirrors_render htwins v hcarries
  have honce := Template.run_renderOnce_of_ok source v helpers s.contexts h
  have hanswer : fresh.2 = ((t.render v).run s'.contexts).reply .text := snd_render hx v
  refine ⟨?_, ?_, fun id hid => ?_⟩
  · rw [hanswer]
    simp only [once, honce, Outcome.reply, hsame.result]
  · rw [hanswer]
    simp only [once, honce, Outcome.reply, hsame.events]
  · have hscratch : id ≠ .scratch Template.standAloneLimit := fun heq => by subst heq; cases hid
    have hmade : id ≠ .made s.made := fun heq => by
      subst heq
      exact Bool.eq_false_iff.mp s.has_nextContext hid
    have hget := hsame.contexts id id (.inr ⟨rfl, hscratch, hmade⟩)
    simp only [fresh, contexts_render hx, once, honce, Contexts.set, Contexts.get_update,
      if_neg hscratch]
    exact hget.symm

/-- Partials come all or none. Registering texts in bulk succeeds exactly if all of them parse:
* It leads to the same session then as registering them one by one, a name standing for the last
  text that is listed for it, and else for what it stood for before. And a rendering that brings
  these texts as partials gives what a new template gives that has them in its own context, beside
  the helpers, and leaves to all other contexts what that leaves to them.
* It leaves the session as it was otherwise, with the error of the first text that does not parse.
  And a rendering that brings these texts fails at the same text, with its name and that error, for
  whatever template, value and helpers, before anything else happens. -/
theorem partials_all_or_none {s : Session} {id : ContextId} (hid : s.has id = true)
    (sources : List (String × String)) (source : String) (v : Value)
    (helpers : List (String × Helper)) :
    let bulk := s.step (.onContext id (.registerPartials sources))
    let each := s.runAll (sources.map fun e => .onContext id (.registerPartial e.1 e.2))
    let held (s : Session) (name : String) :=
      ((s.contexts.get id).partials.get? name).map Partial.source
    let once := (Template.renderOnce source v helpers sources).run s.contexts
    let own := s.nextContext
    let made := (s.runAll [.makeTemplate source none {}, .onContext own (.registerHelpers helpers),
      .onContext own (.registerPartials sources)]).1
    let fresh := made.step (.onTemplate s.templates.length (.render v))
    (bulk.2.answer = .done ↔ ∀ entry ∈ sources, ∃ p, parse entry.2 = .ok p) ∧
    (bulk.2.answer = .done →
      (bulk.1 = each.1 ∧ ∀ reply ∈ each.2, reply = ⟨.done, []⟩) ∧
      (∀ name, held bulk.1 name = (sources.reverse.lookup name).or (held s name)) ∧
      fresh.2.answer = (once.reply .text).answer ∧
      fresh.2.events.map Event.unplaced = once.events.map Event.unplaced ∧
      ∀ other, s.has other = true → fresh.1.contexts.get other = once.contexts.get other) ∧
    (bulk.2.answer ≠ .done ↔ ∃ name e, FirstInvalid sources name e) ∧
    (∀ name e, FirstInvalid sources name e → bulk = (s, ⟨.failed (.parse e), []⟩) ∧
      once = ⟨.error (.invalidPartial name e), s.contexts, []⟩) := by
  intro bulk each held once own made fresh
  have hfailed {name : String} {e : ParseError} (hfirst : FirstInvalid sources name e) :
      bulk = (s, ⟨.failed (.parse e), []⟩) ∧
        once = ⟨.error (.invalidPartial name e), s.contexts, []⟩ :=
    ⟨Session.step_registerPartials_of_error hid (compileAll_eq_error.mpr ⟨name, hfirst⟩),
      Template.run_renderOnce_of_error source v helpers s.contexts hfirst⟩
  cases hall : compileAll sources with
  | error e =>
    obtain ⟨name, hfirst⟩ := compileAll_eq_error.mp hall
    have hfails : bulk.2.answer ≠ .done := by
      rw [(hfailed hfirst).1]
      nofun
    have hinvalid : ¬ ∀ entry ∈ sources, ∃ p, parse entry.2 = .ok p := by
      rw [← exists_compileAll_iff, hall]
      nofun
    exact ⟨iff_of_false hfails hinvalid, fun h => absurd h hfails,
      iff_of_true hfails ⟨name, e, hfirst⟩, fun _ _ => hfailed⟩
  | ok partials =>
    have hbulk : bulk = (s.change id (·.insertPartials partials), ⟨.done, []⟩) :=
      Session.step_registerPartials_of_ok hid hall
    have heach : each =
        (s.change id (·.insertPartials partials), sources.map fun _ => ⟨.done, []⟩) :=
      Session.runAll_registerPartial hid hall
    have hdone : bulk.2.answer = .done := by rw [hbulk]
    have hvalid : ¬ ∃ name e, FirstInvalid sources name e := by
      rintro ⟨name, e, hfirst⟩
      rw [compileAll_eq_error.mpr ⟨name, hfirst⟩] at hall
      cases hall
    refine ⟨iff_of_true hdone (exists_compileAll_iff.mp ⟨partials, hall⟩),
      fun _ => ⟨⟨by rw [hbulk, heach], fun reply hreply => ?_⟩, fun name => ?_,
        Session.render_once hall source v helpers rfl⟩,
      iff_of_false (not_not_intro hdone) hvalid, fun _ _ => hfailed⟩
    · rw [heach] at hreply
      obtain ⟨entry, -, rfl⟩ := List.mem_map.mp hreply
      rfl
    · rw [← compileAll_eq_ok.mp hall, lookup_reverse_sources]
      simp only [held, hbulk, Session.change, Contexts.get_update, if_pos,
        ExecutionContext.insertPartials, NameMap.get?_insertAll]
      cases partials.reverse.lookup name <;> rfl

/-- A name that is listed twice stands for the later text. A text that does not parse keeps both
from being registered, and a template from being rendered that does not parse itself. -/
theorem partials_all_or_none_twice :
    let s : Session := {}
    let twice := [("a", "x"), ("a", "y")]
    let broken := twice ++ [("b", "\x7b\x7b"), ("c", "\x7b\x7b#")]
    let bulk sources := s.step (.onContext .global (.registerPartials sources))
    (((bulk twice).1.contexts.get .global).partials.get? "a").map Partial.source = some "y" ∧
      ∃ e, parse "\x7b\x7b" = .error e ∧ bulk broken = (s, ⟨.failed (.parse e), []⟩) ∧
        (Template.renderOnce "\x7b\x7b/" .null [] broken).run s.contexts =
          ⟨.error (.invalidPartial "b" e), s.contexts, []⟩ := by
  intro s twice broken bulk
  have hx : ∃ p, parse "x" = .ok p := ⟨_, Written.parse_raw (by decide) (by decide)⟩
  have hy : ∃ p, parse "y" = .ok p := ⟨_, Written.parse_raw (by decide) (by decide)⟩
  obtain ⟨e, he⟩ := Written.parse_open
  have hfirst : FirstInvalid broken "b" e := by
    refine ⟨twice, _, [("c", "\x7b\x7b#")], rfl, fun entry hentry => ?_, he⟩
    rcases List.mem_pair.mp hentry with rfl | rfl
    · exact hx
    · exact hy
  have hglobal : s.has .global = true := rfl
  obtain ⟨hok, hdone, -⟩ := partials_all_or_none hglobal twice "" .null []
  obtain ⟨-, -, -, hfailed⟩ := partials_all_or_none hglobal broken "\x7b\x7b/" .null []
  refine ⟨?_, e, he, hfailed "b" e hfirst⟩
  refine ((hdone (hok.mpr fun entry hentry => ?_)).2.1 "a").trans rfl
  rcases List.mem_pair.mp hentry with rfl | rfl
  · exact hx
  · exact hy

end Stencil
