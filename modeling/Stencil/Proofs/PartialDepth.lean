import Stencil.Proofs.Failures

/-!
How deep partials are nested. A rendering counts the bodies of partials that it is inside of, and
refuses to enter one more where they are as many as the limit. Bodies that it has left do not count.
-/
namespace Stencil

/-- The template with another limit of partials. -/
def Template.withLimit (t : Template) (limit : Nat) : Template :=
  { t with options := { t.options with partialLimit := limit } }

section
variable {t : Template} {cs : Contexts}

theorem Template.withLimit_sameLookup (t : Template) (limit limit' : Nat) :
    (t.withLimit limit).SameLookup (t.withLimit limit') := ⟨rfl, rfl, rfl⟩

/-- A higher limit changes no result, but those that ran into the lower one. -/
theorem result_render_withLimit (hb : t.OnlyBuiltins cs) {limit limit' : Nat}
    (h : limit ≤ limit') (v : Value)
    (hlimit : ∀ name n, (((t.withLimit limit).render v).run cs).result ≠
      .error (.recursionLimit name n)) :
    (((t.withLimit limit).render v).run cs).result =
      (((t.withLimit limit').render v).run cs).result := by
  obtain ⟨f, hf⟩ := exists_standAlone (t.withLimit limit)
  obtain ⟨f', hf'⟩ := exists_standAlone (t.withLimit limit')
  have hsource (n : Nat) : (t.withLimit n).source = t.source := rfl
  rw [hf, Template.renderWith, hsource] at hlimit ⊢
  rw [hf', Template.renderWith, hsource]
  cases hp : parse t.source with
  | error e => rfl
  | ok p =>
    rw [hp] at hlimit
    have hbuiltins : (t.withLimit limit).OnlyBuiltins cs := hb
    have halike : Render.Alike RenderError.IsLimit cs cs (· = ·)
        (renderProgram (t.withLimit limit) f limit p (.root v))
        (renderProgram (t.withLimit limit') f' limit' p (.root v)) :=
      alike_renderProgram_of_lookup hbuiltins (t.withLimit_sameLookup limit' limit) h
        (fun heq => heq.symm) p (.refl _)
    exact halike.result_eq hlimit

end

/-! Insertions inside the bodies of partials. -/

/-- An insertion is refused: it fails at the limit, and enters no body. -/
structure Template.Refuses (t : Template) (f : String → Value → Render String) (n : Nat) (s : Scope)
    (cs : Contexts) (name : String) (context : Option Expression) (named : NamedParams) : Prop where
  result : (((t.rendererIn f n).insertion s name context named).run cs).result =
    .error (.recursionLimit name t.options.partialLimit)
  entersNothing (g : Frame) : ¬ (Statement.insertion name context named).Opens t f n s cs g

/-- An expression that has a value in every scope, as all have but those that read fields. -/
def Expression.HasValue (cs : Contexts) (e : Expression) : Prop :=
  ∀ s, ∃ v, ((Render.evaluate s e).run cs).result = .ok v

/-- An insertion of a partial, of which all expressions have values. -/
def Statement.Inserts (cs : Contexts) (name : String) (x : Statement) : Prop :=
  (∃ context named, x = .insertion name context named) ∧ ∀ e ∈ x.expressions, e.HasValue cs

section
variable {t : Template} {f : String → Value → Render String} {cs : Contexts} {n : Nat} {s : Scope}
  {name : String} {context : Option Expression} {named : NamedParams} {b : Partial}

theorem Template.rendererIn_of_le (hn : t.options.partialLimit ≤ n) :
    t.rendererIn f n = ⟨t, f, none⟩ := by
  rw [rendererIn, Nat.sub_eq_zero_of_le hn]
  rfl

theorem Template.rendererIn_of_lt (hn : n < t.options.partialLimit) :
    t.rendererIn f n = ⟨t, f, some fun p s => (t.rendererIn f (n + 1)).program s p⟩ := by
  have hroom : t.options.partialLimit - n = t.options.partialLimit - (n + 1) + 1 := by omega
  rw [rendererIn, hroom, rendererFor]
  congr 2
  funext p s
  exact renderProgram_eq t f _ p s

variable (hpartial : ((t.partial? name).run cs).result = .ok (some b))
include hpartial

/-- As many bodies as the limit are around an insertion: it fails. -/
theorem result_insertion_of_le (hn : t.options.partialLimit ≤ n) :
    (((t.rendererIn f n).insertion s name context named).run cs).result =
      .error (.recursionLimit name t.options.partialLimit) := by
  rw [t.rendererIn_of_le hn]
  exact Renderer.result_insertion_refused hpartial _ rfl rfl s context named

omit hpartial in
/-- An insertion that opens a frame has the result of the frame, one body further in. -/
theorem Statement.Opens.result_insertion {g : Frame}
    (hg : (Statement.insertion name context named).Opens t f n s cs g) :
    (((t.rendererIn f n).insertion s name context named).run cs).result =
      (((t.rendererIn f (n + 1)).program g.scope g.program).run cs).result := by
  cases hg with
  | body hn hpartial hentries =>
    rw [t.rendererIn_of_lt hn, Renderer.result_insertion_entered hpartial _ rfl rfl, hentries]
    rfl
  | bodyFor hn hpartial hentries hv =>
    rw [t.rendererIn_of_lt hn, Renderer.result_insertion_entered hpartial _ rfl rfl, hentries]
    dsimp only [Except.bind]
    rw [hv]

/-- Fewer bodies than the limit are around an insertion: it enters the body of its partial, unless
an expression of it fails on a host object. -/
theorem result_insertion_of_lt (hn : n < t.options.partialLimit)
    (f : String → Value → Render String) (s : Scope) (context : Option Expression)
    (named : NamedParams) :
    (∃ g, (Statement.insertion name context named).Opens t f n s cs g ∧ g.program = b.program) ∨
      ∃ e, (((t.rendererIn f n).insertion s name context named).run cs).result =
        .error (.hostAccess e) := by
  rw [t.rendererIn_of_lt hn, Renderer.result_insertion_entered hpartial _ rfl rfl]
  cases hentries : ((Render.evaluateNamed s named.entries).run cs).result with
  | error e =>
    obtain ⟨cause, rfl⟩ := (Render.failsOnly_evaluateNamed s named.entries).error hentries
    exact .inr ⟨cause, rfl⟩
  | ok entries =>
    cases context with
    | none => exact .inl ⟨_, .body hn hpartial hentries, rfl⟩
    | some e =>
      cases hv : ((Render.evaluate s e).run cs).result with
      | error failure =>
        obtain ⟨cause, rfl⟩ := (Render.failsOnly_evaluate s e).error hv
        refine .inr ⟨cause, ?_⟩
        dsimp only [Except.bind]
        rw [hv]
      | ok v => exact .inl ⟨_, .bodyFor hn hpartial hentries hv, rfl⟩

omit hpartial in
/-- What follows an insertion that fails is not rendered. -/
theorem result_program_of_refused {r : Renderer} {before rest : Program} {text : String}
    {ds : Contexts} {events : List Event} {e : RenderError}
    (hbefore : (r.program s before).run cs = ⟨.ok text, ds, events⟩)
    (hrefused : ((r.insertion s name context named).run ds).result = .error e) :
    ((r.program s (before ++ .insertion name context named :: rest)).run cs).result = .error e := by
  rw [r.program_append, r.program_cons, Render.append,
    Render.run_bind_of_ok (by rw [hbefore]), hbefore, Renderer.statement, Render.append, bind_assoc,
    Render.run_bind_of_error hrefused]

/-- The limit is exact. -/
theorem refuses_iff (hn : n ≤ t.options.partialLimit) :
    t.Refuses f n s cs name context named ↔ n = t.options.partialLimit := by
  constructor
  · rintro ⟨hresult, hnothing⟩
    by_contra hne
    have hlt := Nat.lt_of_le_of_ne hn hne
    rcases result_insertion_of_lt hpartial hlt f s context named with ⟨g, hg, -⟩ | ⟨e, he⟩
    · exact hnothing g hg
    · rw [hresult] at he
      cases he
  · rintro rfl
    refine ⟨result_insertion_of_le hpartial (Nat.le_refl _), fun g hg => ?_⟩
    cases hg with
    | body hlt => exact Nat.lt_irrefl _ hlt
    | bodyFor hlt => exact Nat.lt_irrefl _ hlt

omit hpartial in
/-- An insertion that a rendering reaches, once the statements before it are rendered and its name
has resolved: no other bodies count than those around it, and where it is refused so is the program
that it stands in. -/
theorem refuses_reached {p : Program} (hp : programDepth p ≤ maxBlockDepth) {v : Value} {g : Frame}
    (hreached : Relation.ReflTransGen (Frame.Opens t f) ⟨0, p, .root v, cs⟩ g)
    {before rest : Program} {text : String} {ds : Contexts} {events : List Event}
    (hprogram : g.program = before ++ .insertion name context named :: rest)
    (hbefore : ((t.rendererIn f g.around).program g.scope before).run g.contexts =
      ⟨.ok text, ds, events⟩)
    (hpartial : ((t.partial? name).run ds).result = .ok (some b)) :
    (t.Refuses f g.around g.scope ds name context named ↔ g.around = t.options.partialLimit) ∧
      (g.around = t.options.partialLimit →
        (((t.rendererIn f g.around).program g.scope g.program).run g.contexts).result =
          .error (.recursionLimit name t.options.partialLimit)) := by
  have hbounded := Frame.Bounded.reached (t := t) (Frame.bounded_start hp v) hreached
  refine ⟨refuses_iff hpartial hbounded.around, fun hfull => ?_⟩
  rw [hprogram]
  exact result_program_of_refused hbefore
    (result_insertion_of_le hpartial (Nat.le_of_eq hfull.symm))

omit hpartial in
theorem exists_evaluateNamed {es : List (String × Expression)}
    (h : ∀ e ∈ es.map (·.2), e.HasValue cs) (s : Scope) :
    ∃ entries, ((Render.evaluateNamed s es).run cs).result = .ok entries := by
  induction es with
  | nil => exact ⟨[], rfl⟩
  | cons e rest ih =>
    obtain ⟨v, hv⟩ := h e.2 (by simp) s
    obtain ⟨entries, hentries⟩ := ih fun x hx => h x (.tail _ hx)
    refine ⟨(e.1, v) :: entries, ?_⟩
    rw [Render.evaluateNamed, Render.result_bind (Render.keeps_evaluate s e.2 cs), hv]
    dsimp only [Except.bind]
    rw [Render.result_bind (Render.keeps_evaluateNamed s rest cs), hentries]
    rfl

/-- An insertion whose expressions have values is refused where there is no room for the body of its
partial. -/
theorem Statement.Inserts.result_of_le {x : Statement} (hx : x.Inserts cs name)
    (hn : t.options.partialLimit ≤ n) :
    (((t.rendererIn f n).statement s x).run cs).result =
      .error (.recursionLimit name t.options.partialLimit) := by
  obtain ⟨⟨context, named, rfl⟩, -⟩ := hx
  rw [Renderer.statement]
  exact result_insertion_of_le hpartial hn

/-- Where there is room it has the result of the body, in some scope. -/
theorem Statement.Inserts.result_of_lt {x : Statement} (hx : x.Inserts cs name)
    (hn : n < t.options.partialLimit) :
    ∃ s', (((t.rendererIn f n).statement s x).run cs).result =
      (((t.rendererIn f (n + 1)).program s' b.program).run cs).result := by
  obtain ⟨⟨context, named, rfl⟩, hvalues⟩ := hx
  rw [Renderer.statement]
  obtain ⟨entries, hentries⟩ :=
    exists_evaluateNamed (fun e he => hvalues e (List.mem_append_right _ he)) s
  cases context with
  | none =>
    have hg : (Statement.insertion name none named).Opens t f n s cs _ :=
      .body hn hpartial hentries
    exact ⟨_, hg.result_insertion⟩
  | some e =>
    obtain ⟨v, hv⟩ := hvalues e (by simp [Statement.expressions]) s
    have hg : (Statement.insertion name (some e) named).Opens t f n s cs _ :=
      .bodyFor hn hpartial hentries hv
    exact ⟨_, hg.result_insertion⟩

end

/-! Chains of partials. -/

/-- A chain of partials: the body of the first, `name`, is raw text around an insertion of the next,
and that of the last is raw text only. Together they show `text`. -/
inductive Template.Links (t : Template) (cs : Contexts) : String → List String → String → Prop
  | last {name b} {texts : List String} : ((t.partial? name).run cs).result = .ok (some b) →
      b.program = texts.map .raw → Links t cs name [] (String.join texts)
  | next {name next rest text b x} {before after : List String} :
      ((t.partial? name).run cs).result = .ok (some b) →
      b.program = before.map .raw ++ x :: after.map .raw → x.Inserts cs next →
      Links t cs next rest text →
      Links t cs name (next :: rest) (String.join before ++ text ++ String.join after)

section
variable {t : Template} {f : String → Value → Render String} {cs : Contexts} {n : Nat} {s : Scope}

theorem Renderer.program_raws (r : Renderer) (s : Scope) (texts : List String) :
    r.program s (texts.map .raw) = pure (String.join texts) := by
  induction texts with
  | nil => rw [List.map_nil, program, String.join_nil]
  | cons text rest ih =>
    rw [List.map_cons, program_cons, ih, statement, Render.append, pure_bind, pure_bind,
      String.join_cons]

/-- A statement between raw texts. -/
theorem result_between (r : Renderer) (s : Scope) (before after : List String) (x : Statement)
    (cs : Contexts) :
    ((r.program s (before.map .raw ++ x :: after.map .raw)).run cs).result =
      ((r.statement s x).run cs).result.map
        (String.join before ++ · ++ String.join after) := by
  rw [r.program_append, r.program_cons, r.program_raws, r.program_raws, Render.append,
    Render.append, pure_bind]
  cases hr : ((r.statement s x).run cs).result with
  | error e => rw [bind_assoc, Render.run_bind_of_error hr]; rfl
  | ok text =>
    rw [bind_assoc, Render.run_bind_of_ok hr]
    simp only [pure_bind, ← String.append_assoc]
    rfl

/-- A chain of partials inside the bodies of `n` others shows its text, if there is room for all of
it, and else is refused at the partial for which there is none. -/
theorem result_links {name text : String} {rest : List String}
    (hlinks : t.Links cs name rest text) {x : Statement} (hx : x.Inserts cs name)
    (hn : n ≤ t.options.partialLimit) (s : Scope) :
    (n + rest.length < t.options.partialLimit →
      (((t.rendererIn f n).statement s x).run cs).result = .ok text) ∧
    ∀ refused, (name :: rest)[t.options.partialLimit - n]? = some refused →
      (((t.rendererIn f n).statement s x).run cs).result =
        .error (.recursionLimit refused t.options.partialLimit) := by
  -- each link is one body further in, where one less of the chain is left
  induction hlinks generalizing x n s with
  | @last name b texts hpartial hbody =>
    refine ⟨fun (hroom : n < t.options.partialLimit) => ?_, fun refused hrefused => ?_⟩
    · obtain ⟨s', hs'⟩ := hx.result_of_lt (f := f) (s := s) hpartial hroom
      rw [hs', hbody, Renderer.program_raws]
      rfl
    · obtain ⟨hroom, rfl⟩ : t.options.partialLimit - n = 0 ∧ name = refused := by
        simpa [List.getElem?_singleton] using hrefused
      exact hx.result_of_le hpartial (by omega)
  | @next name next rest text b y before after hpartial hbody hy _ ih =>
    rcases Nat.lt_or_eq_of_le hn with hlt | rfl
    · obtain ⟨s', hs'⟩ := hx.result_of_lt (f := f) (s := s) hpartial hlt
      obtain ⟨hok, herror⟩ := ih hy hlt s'
      rw [hs', hbody, result_between]
      refine ⟨fun hroom => ?_, fun refused hrefused => ?_⟩
      · rw [hok (by rw [List.length_cons] at hroom; omega)]
        rfl
      · have hroom : t.options.partialLimit - n = t.options.partialLimit - (n + 1) + 1 := by omega
        rw [hroom, List.getElem?_cons_succ] at hrefused
        rw [herror refused hrefused]
        rfl
    · refine ⟨fun hroom => absurd hroom (by omega), fun refused hrefused => ?_⟩
      rw [Nat.sub_self, List.getElem?_cons_zero] at hrefused
      cases hrefused
      exact hx.result_of_le hpartial (Nat.le_refl _)

/-- A partial that inserts itself is refused, wherever its insertion stands. -/
theorem result_self {name : String} {b : Partial}
    (hpartial : ((t.partial? name).run cs).result = .ok (some b)) {before after : List String}
    {y : Statement} (hbody : b.program = before.map .raw ++ y :: after.map .raw)
    (hy : y.Inserts cs name) {x : Statement} (hx : x.Inserts cs name)
    (hn : n ≤ t.options.partialLimit) (s : Scope) :
    (((t.rendererIn f n).statement s x).run cs).result =
      .error (.recursionLimit name t.options.partialLimit) := by
  -- each body is one further in, until there is no room for one more
  induction hroom : t.options.partialLimit - n generalizing n x s with
  | zero => exact hx.result_of_le hpartial (by omega)
  | succ room ih =>
    have hlt : n < t.options.partialLimit := by omega
    obtain ⟨s', hs'⟩ := hx.result_of_lt (f := f) (s := s) hpartial hlt
    rw [hs', hbody, result_between, ih hy hlt s' (by omega)]
    rfl

/-- A chain of partials is one under any limit. -/
theorem Template.Links.withLimit {name text : String} {rest : List String}
    (h : t.Links cs name rest text) (limit : Nat) :
    (t.withLimit limit).Links cs name rest text := by
  induction h with
  | last hpartial hbody => exact .last hpartial hbody
  | next hpartial hbody hx _ ih => exact .next hpartial hbody hx ih

/-- A template that is one insertion. -/
theorem render_singleton {x : Statement} (hp : parse t.source = .ok [x]) (limit : Nat) (v : Value) :
    ∃ f, (t.withLimit limit).render v =
      ((t.withLimit limit).rendererIn f 0).statement (.root v) x := by
  obtain ⟨f, hf⟩ := exists_render (t := t.withLimit limit) hp
  refine ⟨f, ?_⟩
  rw [hf, renderProgram_eq, program_singleton]
  rfl

/-- The limit of partials is exact. A rendering that ends otherwise ends so under every higher
limit. An insertion that is reached is refused exactly where as many bodies are being rendered
around it as the limit says, and the program that it stands in fails with it. So a chain of partials
is shown if there are no more of them than that, and else refused at the first that is one too many;
and a partial that inserts itself is refused under every limit. -/
theorem partial_limit_exact (hb : t.OnlyBuiltins cs) (v : Value) :
    let result (limit : Nat) := (((t.withLimit limit).render v).run cs).result
    (∀ limit limit', limit ≤ limit' → (∀ name n, result limit ≠ .error (.recursionLimit name n)) →
      result limit = result limit') ∧
    (∀ limit p, parse t.source = .ok p → ∃ f,
      (t.withLimit limit).render v = ((t.withLimit limit).rendererIn f 0).program (.root v) p ∧
      ∀ g before name context named rest text ds events b,
        Relation.ReflTransGen (Frame.Opens (t.withLimit limit) f) ⟨0, p, .root v, cs⟩ g →
        g.program = before ++ .insertion name context named :: rest →
        (((t.withLimit limit).rendererIn f g.around).program g.scope before).run g.contexts =
          ⟨.ok text, ds, events⟩ →
        ((t.partial? name).run ds).result = .ok (some b) →
        ((t.withLimit limit).Refuses f g.around g.scope ds name context named ↔ g.around = limit) ∧
          (g.around = limit →
            ((((t.withLimit limit).rendererIn f g.around).program g.scope g.program).run
              g.contexts).result = .error (.recursionLimit name limit))) ∧
    (∀ limit x name rest text, parse t.source = .ok [x] → x.Inserts cs name →
      t.Links cs name rest text → (rest.length + 1 ≤ limit → result limit = .ok text) ∧
        ∀ refused, (name :: rest)[limit]? = some refused →
          result limit = .error (.recursionLimit refused limit)) ∧
    ∀ limit x y name b before after, parse t.source = .ok [x] → x.Inserts cs name →
      ((t.partial? name).run cs).result = .ok (some b) →
      b.program = List.map .raw before ++ y :: List.map .raw after → y.Inserts cs name →
      result limit = .error (.recursionLimit name limit) := by
  intro result
  refine ⟨fun limit limit' h hlimit => result_render_withLimit hb h v hlimit, ?_, ?_, ?_⟩
  · intro limit p hp
    obtain ⟨f, hf⟩ := exists_render (t := t.withLimit limit) hp
    refine ⟨f, ?_, ?_⟩
    · rw [hf]
      exact renderProgram_eq (t.withLimit limit) f limit p (.root v)
    · intro g before name context named rest text ds events b hreached hprogram hbefore hpartial
      exact refuses_reached (programDepth_le_of_parse hp) hreached hprogram hbefore hpartial
  · intro limit x name rest text hp hx hlinks
    obtain ⟨f, hf⟩ := render_singleton hp limit v
    obtain ⟨hok, herror⟩ :=
      result_links (f := f) (hlinks.withLimit limit) hx (Nat.zero_le limit) (.root v)
    dsimp only [result]
    rw [hf]
    exact ⟨fun hroom => hok (by rwa [Nat.zero_add]), herror⟩
  · intro limit x y name b before after hp hx hpartial hbody hy
    obtain ⟨f, hf⟩ := render_singleton hp limit v
    dsimp only [result]
    rw [hf]
    have hpartial' : (((t.withLimit limit).partial? name).run cs).result = .ok (some b) := hpartial
    exact result_self hpartial' hbody hy hx (Nat.zero_le limit) (.root v)

end

theorem Statement.inserts_plain (cs : Contexts) (name : String) :
    (Statement.insertion name none {}).Inserts cs name :=
  ⟨⟨none, {}, rfl⟩, by simp [Statement.expressions]⟩

open Written in
/-- The partial `last` in brackets. -/
def outerPartial : Partial where
  source := "(\x7b\x7b>\"last\"\x7d\x7d)"
  program := [.raw "(", .insertion "last" none {}, .raw ")"]
  parses := by
    have hopen : WritableRaw true "(".toList := ⟨by decide, by decide, fun _ => by simp [Paired]⟩
    have hclose : WritableRaw false ")".toList := ⟨by decide, by decide, nofun⟩
    have hw : Writable [.raw "(", .insertion "last" none {}, .raw ")"] := by
      refine ⟨.raw hopen (by simp [isRaw]) ?_, by decide⟩
      exact .insertion (by simp [WritableString]) (by simp) writableNamed_nil
        (.raw hclose (by simp) .nil)
    have htext : ProgramText false [.raw "(", .insertion "last" none {}, .raw ")"] _ :=
      .raw (.tag (.insertion .nil .nil .nil) (.raw .nil))
    exact htext.parse hw

open Written in
/-- A chain of two partials under limits of two and of one, and a partial that inserts itself. Under
a limit of one the first of the chain is entered, and the second is refused inside of it. -/
theorem partial_limit_exact_chain :
    let cs := ((Contexts.empty.update .global (·.insertPartial "outer" outerPartial)).update .global
      (·.insertPartial "last" ⟨".", [.raw "."], parse_raw (by decide) (by decide)⟩)).update .global
        (·.insertPartial "loop" loopPartial)
    let chain : Template := ⟨"\x7b\x7b>\"outer\"\x7d\x7d", {}, .global, none⟩
    let loop : Template := ⟨"\x7b\x7b>\"loop\"\x7d\x7d", {}, .global, none⟩
    let result (t : Template) (limit : Nat) := (((t.withLimit limit).render .null).run cs).result
    result chain 2 = .ok "(.)" ∧ result chain 9 = .ok "(.)" ∧
      result chain 1 = .error (.recursionLimit "last" 1) ∧
      (∃ f, ¬ (chain.withLimit 1).Refuses f 0 (.root .null) cs "outer" none {} ∧
        ∃ s, Frame.Opens (chain.withLimit 1) f
            ⟨0, [.insertion "outer" none {}], .root .null, cs⟩ ⟨1, outerPartial.program, s, cs⟩ ∧
          (chain.withLimit 1).Refuses f 1 s cs "last" none {}) ∧
      result loop 7 = .error (.recursionLimit "loop" 7) := by
  intro cs chain loop result
  have hw (name : String) (hname : WritableString name) : Writable [.insertion name none {}] :=
    ⟨.insertion hname (by simp) writableNamed_nil .nil,
      by simp [programDepth, Statement.depth]⟩
  have htext (name : String) : ProgramText false [.insertion name none {}] _ :=
    .tag (.insertion .nil .nil .nil) .nil
  have hchain : parse chain.source = .ok [.insertion "outer" none {}] :=
    (htext "outer").parse (hw "outer" (by simp [WritableString]))
  have hloop : parse loop.source = .ok [.insertion "loop" none {}] :=
    (htext "loop").parse (hw "loop" (by simp [WritableString]))
  have hlast : chain.Links cs "last" [] (String.join ["."]) := .last rfl rfl
  have hlinks : chain.Links cs "outer" ["last"]
      (String.join ["("] ++ String.join ["."] ++ String.join [")"]) :=
    .next rfl rfl (Statement.inserts_plain cs "last") hlast
  have hthis :
      (Statement.insertion "loop" (some (.path ⟨[.this], "this"⟩)) {}).Inserts cs "loop" := by
    refine ⟨⟨_, _, rfl⟩, fun e he s => ?_⟩
    obtain rfl : e = .path ⟨[.this], "this"⟩ := by simpa [Statement.expressions] using he
    exact ⟨s.value, rfl⟩
  have hbchain : chain.OnlyBuiltins cs := fun _ => rfl
  have hbloop : loop.OnlyBuiltins cs := fun _ => rfl
  obtain ⟨hmore, hreached, hfits, -⟩ := partial_limit_exact hbchain .null
  obtain ⟨-, -, -, hself⟩ := partial_limit_exact hbloop .null
  have htwo := (hfits 2 _ _ _ _ hchain (Statement.inserts_plain cs "outer") hlinks).1 (by decide)
  have hone := (hfits 1 _ _ _ _ hchain (Statement.inserts_plain cs "outer") hlinks).2 "last" rfl
  have hnine := hmore 2 9 (by decide) fun _ _ h => by cases htwo.symm.trans h
  obtain ⟨f, -, hrefused⟩ := hreached 1 _ hchain
  have hbefore : (((chain.withLimit 1).rendererIn f 0).program (.root .null) []).run cs =
      ⟨.ok "", cs, []⟩ := rfl
  have hentered : Frame.Opens (chain.withLimit 1) f
      ⟨0, [.insertion "outer" none {}], .root .null, cs⟩ ⟨1, outerPartial.program, _, cs⟩ :=
    .statement hbefore (.body Nat.zero_lt_one rfl rfl)
  refine ⟨htwo, hnine.symm.trans htwo, hone, ⟨f, ?_, _, hentered, ?_⟩, ?_⟩
  · have houter := hrefused _ [] "outer" none {} [] "" cs [] outerPartial .refl rfl rfl rfl
    exact fun hrefuses => Nat.zero_ne_one (houter.1.mp hrefuses)
  · have hlast := hrefused _ [.raw "("] "last" none {} [.raw ")"] "(" cs [] _ (.single hentered) rfl
      rfl rfl
    exact hlast.1.mpr rfl
  · exact hself 7 _ _ "loop" loopPartial ["x"] [] hloop (Statement.inserts_plain cs "loop") rfl rfl
      hthis

end Stencil
