import Stencil.Proofs.Aborts
import Stencil.Proofs.Parameters
import Stencil.Proofs.ReadOrder.Reads

/-!
The order in which host objects are read. A host object sees which of its fields are read, and may do
something at each read. The reads that a statement makes before anything else is rendered for it are
given here in their order: those of its parameters one after the other, and of a path step by step.
-/
namespace Stencil

/-- The scope that the body of a partial is rendered in: only a context makes it a scope inside. -/
def Scope.inserted (s : Scope) (named : List (String × Value)) (context : Option Value) : Scope :=
  match context with
  | some v => s.child v (s.data.insertAll named)
  | none => s.withData (s.data.insertAll named)

/-- A question to a delegate, which reads nothing. -/
def Event.IsQuestion : Event → Prop
  | .asked .. => True
  | .read _ | .logged .. | .called _ => False

namespace Template

variable (t : Template) (cs : Contexts)

/-- The helper that a head names, with its name. -/
def headed (path? : Option Path) : Option (String × Helper) :=
  (path?.bind Path.helperName?).bind fun name =>
    ((t.first? cs (·.helper? name)).or (builtin? name)).map (name, ·)

/-- What delegates are asked about a head. -/
def headQuestions (path? : Option Path) : List Event :=
  match path?.bind Path.helperName? with
  | some name => t.asked cs (·.helper? name) (·.asksHelper name)
  | none => []

/-- What delegates are asked about a statement. -/
def questions : Statement → List Event
  | .tag head _ _ => t.headQuestions cs head.asPath?
  | .block path _ _ _ => t.headQuestions cs (some path)
  | .insertion name _ _ => t.asked cs (·.partial? name) (·.asksPartial name)
  | .raw _ | .comment _ => []

/-- Why a statement fails once names are resolved: a block without a helper, a tag with parameters
but without a helper, an insertion of a partial that is missing or invalid, or of one too many in
the bodies of `n` partials. -/
def refusal? (n : Nat) : Statement → Option RenderError
  | .tag head arguments _ =>
    if (t.headed cs head.asPath?).isNone && !arguments.isEmpty then
      some (.missingHelper head.source)
    else none
  | .block path _ _ _ =>
    if (t.headed cs (some path)).isNone then some (.missingHelper path.source) else none
  | .insertion name _ _ =>
    match t.first? cs (·.partial? name) with
    | none => some (.missingPartial name)
    | some (.error e) => some (.invalidPartial name e)
    | some (.ok _) =>
      if n < t.options.partialLimit then none
      else some (.recursionLimit name t.options.partialLimit)
  | .raw _ | .comment _ => none

/-- The expressions that a statement reads before anything else is rendered for it: the parameters
of a call, positional ones first, else the head of a tag; the named parameters of an insertion and
then its context. -/
def expressionsRead : Statement → List Expression
  | .tag head arguments _ =>
    if (t.headed cs head.asPath?).isSome then arguments.expressions else [head]
  | .block _ arguments _ _ => arguments.expressions
  | .insertion _ context named => named.entries.map (·.2) ++ context.toList
  | .raw _ | .comment _ => []

/-- The text of a tag before escaping, from the values of its expressions: that of the helper, or
that of the head. -/
def tagBody (f : String → Value → Render String) (s : Scope) (head : Expression)
    (arguments : Arguments) (vs : List Value) : Render String :=
  match t.headed cs head.asPath? with
  | some (name, helper) =>
    (helper (s.tagCall name (arguments.positionalValues vs) (arguments.namedValues vs))).perform
      ⟨t, fun _ v d => Renderer.emptyProgram (s.child v d), f⟩
  | none => return (vs.headD .null).text

/-- What is done for a statement with the values of its expressions: the helper is called, the value
is shown, or the body of the partial is rendered. -/
def body (f : String → Value → Render String) (n : Nat) (s : Scope) :
    Statement → List Value → Render String
  | .raw text, _ => return text
  | .comment _, _ => return ""
  | .tag head arguments escaped, vs => do
    let text ← t.tagBody cs f s head arguments vs
    if escaped then t.escape text else return text
  | .block path arguments main inverse, vs =>
    match t.headed cs (some path) with
    | some (name, helper) =>
      (helper (s.blockCall name (arguments.positionalValues vs) (arguments.namedValues vs) main
        inverse)).perform (t.blockMeans f n s main inverse)
    | none => Render.fail (.missingHelper path.source)
  | .insertion name _ named, vs =>
    match t.first? cs (·.partial? name) with
    | some (.ok b) =>
      (t.rendererIn f (n + 1)).program
        (s.inserted ((named.entries.map (·.1)).zip vs) (vs.drop named.entries.length).head?)
        b.program
    | some (.error e) => Render.fail (.invalidPartial name e)
    | none => Render.fail (.missingPartial name)

variable {t cs}

theorem isQuestion_of_mem_asked {α : Type} {answer : ExecutionContext → Option α}
    {asks : ExecutionContext → ContextId → List Event}
    (h : ∀ c id, ∀ event ∈ asks c id, event.IsQuestion) :
    ∀ event ∈ t.asked cs answer asks, event.IsQuestion := by
  intro event hevent
  obtain ⟨id, -, hid⟩ := List.mem_flatMap.mp hevent
  exact h _ _ event hid

theorem isQuestion_of_mem_asks (c : ExecutionContext) (id : ContextId) (hook : Hook)
    (subject : String) : ∀ event ∈ c.asks id hook subject, event.IsQuestion := by
  intro event hevent
  obtain ⟨d, -, rfl⟩ := List.mem_map.mp hevent
  trivial

theorem isQuestion_of_mem_headQuestions {path? : Option Path} :
    ∀ event ∈ t.headQuestions cs path?, event.IsQuestion := by
  rw [headQuestions]
  split
  · refine isQuestion_of_mem_asked fun c id event hevent => ?_
    rw [ExecutionContext.asksHelper] at hevent
    split at hevent
    · cases hevent
    · exact isQuestion_of_mem_asks c id _ _ event hevent
  · simp

theorem isQuestion_of_mem_questions (x : Statement) :
    ∀ event ∈ t.questions cs x, event.IsQuestion := by
  cases x with
  | raw text => nofun
  | comment text => nofun
  | tag head arguments escaped => exact isQuestion_of_mem_headQuestions
  | block path arguments main inverse => exact isQuestion_of_mem_headQuestions
  | insertion name context named =>
    rw [questions]
    refine isQuestion_of_mem_asked fun c id event hevent => ?_
    rw [ExecutionContext.asksPartial] at hevent
    split at hevent
    · cases hevent
    · rcases List.mem_append.mp hevent with hbody | hsource
      · exact isQuestion_of_mem_asks c id _ _ event hbody
      · split at hsource
        · cases hsource
        · exact isQuestion_of_mem_asks c id _ _ event hsource

end Template

theorem Renderer.run_headHelper? (r : Renderer) (cs : Contexts) (path? : Option Path) :
    (r.headHelper? path?).run cs =
      ⟨.ok (r.template.headed cs path?), cs, r.template.headQuestions cs path?⟩ := by
  rw [headHelper?, Template.headed, Template.headQuestions]
  cases path?.bind Path.helperName? with
  | none => rfl
  | some name =>
    dsimp only
    rw [Render.run_bind_of_run (r.template.run_helper? cs name), Render.run_pure, List.append_nil]
    rfl

section
variable (t : Template) (f : String → Value → Render String) (n : Nat) (s : Scope) (cs : Contexts)

theorem Template.run_headHelper? (path? : Option Path) :
    ((t.rendererIn f n).headHelper? path?).run cs =
      ⟨.ok (t.headed cs path?), cs, t.headQuestions cs path?⟩ := by
  have hrun := (t.rendererIn f n).run_headHelper? cs path?
  rwa [t.rendererIn_template] at hrun

/-- A statement that is refused has read nothing. -/
theorem Template.run_of_refusal {x : Statement} {e : RenderError}
    (h : t.refusal? cs n x = some e) :
    ((t.rendererIn f n).statement s x).run cs = ⟨.error e, cs, t.questions cs x⟩ := by
  cases x with
  | raw text => cases h
  | comment text => cases h
  | tag head arguments escaped =>
    rw [refusal?, Option.ite_none_right_eq_some, Bool.and_eq_true, Option.isNone_iff_eq_none] at h
    obtain ⟨⟨hhead, harguments⟩, he⟩ := h
    have hempty : arguments.isEmpty = false := by simpa using harguments
    have htext : ((t.rendererIn f n).tagText s head arguments).run cs =
        ⟨.error e, cs, t.questions cs (.tag head arguments escaped)⟩ := by
      rw [Renderer.tagText, Render.run_bind_of_run (t.run_headHelper? f n cs _), hhead]
      cases he
      simp [hempty, Render.run_fail, questions]
    rw [Renderer.statement, Renderer.tag, Render.run_bind_of_error (by rw [htext]), htext]
  | block path arguments main inverse =>
    rw [refusal?, Option.ite_none_right_eq_some, Option.isNone_iff_eq_none] at h
    obtain ⟨hhead, he⟩ := h
    rw [t.statement_block, Render.run_bind_of_run (t.run_headHelper? f n cs _), hhead]
    cases he
    simp [Render.run_fail, questions]
  | insertion name context named =>
    have hpartial := t.run_partial? cs name
    rw [Renderer.statement, Renderer.insertion, t.rendererIn_template]
    rw [refusal?] at h
    cases hfirst : t.first? cs (·.partial? name) with
    | none =>
      rw [hfirst] at h hpartial
      cases h
      rw [Render.run_bind_of_run hpartial]
      simp [Render.run_fail, questions]
    | some found =>
      rw [hfirst] at h hpartial
      cases found with
      | error cause =>
        cases h
        rw [Render.run_bind_of_error (by rw [hpartial]), hpartial]
        rfl
      | ok b =>
        dsimp only at h hpartial
        rw [Option.ite_none_left_eq_some] at h
        obtain ⟨hfull, he⟩ := h
        rw [Render.run_bind_of_run hpartial, t.rendererIn_of_le (Nat.le_of_not_lt hfull)]
        cases he
        simp [Render.run_fail, questions]

/-- A statement that is not refused reads its expressions in order, and goes on with their values. -/
theorem Template.readsFirst {x : Statement} (h : t.refusal? cs n x = none) :
    Render.ReadsFirst s cs (t.questions cs x) (t.expressionsRead cs x)
      ((t.rendererIn f n).statement s x) (t.body cs f n s x) := by
  cases x with
  | raw text =>
    refine .nil ?_
    rw [Renderer.statement, body]
  | comment text =>
    refine .nil ?_
    rw [Renderer.statement, body]
  | tag head arguments escaped =>
    have htext : Render.ReadsFirst s cs (t.headQuestions cs head.asPath?)
        (t.expressionsRead cs (.tag head arguments escaped))
        ((t.rendererIn f n).tagText s head arguments) (t.tagBody cs f s head arguments) := by
      refine .asked (t.run_headHelper? f n cs _) ?_
      cases hhead : t.headed cs head.asPath? with
      | some found =>
        have hbody : t.tagBody cs f s head arguments = fun vs =>
            (found.2 (s.tagCall found.1 (arguments.positionalValues vs)
              (arguments.namedValues vs))).perform
                ⟨t, fun _ v d => Renderer.emptyProgram (s.child v d), f⟩ := by
          funext vs
          rw [tagBody, hhead]
        rw [hbody, expressionsRead, if_pos (by rw [hhead]; rfl)]
        dsimp only
        rw [Renderer.invoke, t.rendererIn_template, t.rendererIn_standAlone]
        exact .call arguments _
      | none =>
        have hempty : arguments.isEmpty = true := by simpa [refusal?, hhead] using h
        have hbody : t.tagBody cs f s head arguments = fun vs => pure (vs.headD .null).text := by
          funext vs
          rw [tagBody, hhead]
        have hshown : (do return (← Render.evaluate? s head).elim "" Value.text) =
            (do return (← Render.evaluate s head).text) := by
          rw [Render.evaluate, bind_assoc]
          congr 1
          funext found
          cases found <;> rfl
        rw [hbody, expressionsRead, if_neg (by simp [hhead])]
        dsimp only
        rw [if_pos hempty, hshown]
        exact .cons fun v => .nil rfl
    rw [Renderer.statement, Renderer.tag, t.rendererIn_template]
    exact htext.bind
  | block path arguments main inverse =>
    rw [refusal?, ite_eq_right_iff] at h
    rw [t.statement_block, expressionsRead]
    refine .asked (t.run_headHelper? f n cs _) ?_
    cases hhead : t.headed cs (some path) with
    | none => simp [hhead] at h
    | some found =>
      have hbody : t.body cs f n s (.block path arguments main inverse) = fun vs =>
          (found.2 (s.blockCall found.1 (arguments.positionalValues vs) (arguments.namedValues vs)
            main inverse)).perform (t.blockMeans f n s main inverse) := by
        funext vs
        rw [body, hhead]
      rw [hbody]
      exact .call arguments _
  | insertion name context named =>
    have hpartial := t.run_partial? cs name
    rw [refusal?] at h
    rw [Renderer.statement, Renderer.insertion, t.rendererIn_template]
    split at h
    next => cases h
    next => cases h
    next b hfirst =>
      rw [ite_eq_left_iff] at h
      have hlt : n < t.options.partialLimit := by
        by_contra hfull
        cases h hfull
      rw [hfirst] at hpartial
      rw [t.rendererIn_of_lt hlt]
      refine .asked hpartial ?_
      rw [expressionsRead]
      refine Render.ReadsFirst.evaluateNamed fun vs hvs => ?_
      have hbody (us : List Value) : t.body cs f n s (.insertion name context named) (vs ++ us) =
          (t.rendererIn f (n + 1)).program
            (s.inserted ((named.entries.map (·.1)).zip vs) us.head?) b.program := by
        have hlength : (named.entries.map (·.1)).length = vs.length := by rw [List.length_map, hvs]
        have hzip : (_ ++ []).zip (vs ++ us) = _ := List.zip_append hlength
        rw [List.append_nil, List.zip_nil_left, List.append_nil] at hzip
        rw [body, hfirst, List.drop_left' hvs, hzip]
      cases context with
      | none =>
        refine .nil ?_
        rw [hbody]
        rfl
      | some e =>
        refine .cons fun v => .nil ?_
        rw [hbody]
        rfl

/-- Reads come in order, and the first that fails is the last. For whatever statement, scope and
contexts, inside the bodies of any number of partials:
* Delegates are asked first, and these questions read nothing. A statement that is refused then has
  read nothing at all. Any other reads its expressions one after the other, and only then is the
  helper called or the body of the partial rendered, with their values; the first read that fails
  ends the statement instead.
* The named parameters of a tag stand in the order in which their names were first written, each
  once, with the expression that was written last.
* Of a path the steps are taken from left to right, up to the first that leads nowhere or fails.
* A statement that fails ends the program that it stands in, and so the whole rendering, as far as
  the helpers of the blocks around it pass errors on. Those of every template do. -/
theorem host_reads_in_order (t : Template) (f : String → Value → Render String) (n : Nat)
    (s : Scope) (cs : Contexts) :
    let r := t.rendererIn f n
    (∀ x : Statement,
      (∀ event ∈ t.questions cs x, event.IsQuestion) ∧
      (∀ e, t.refusal? cs n x = some e →
        (r.statement s x).run cs = ⟨.error e, cs, t.questions cs x⟩) ∧
      (t.refusal? cs n x = none → Render.ReadsFirst s cs (t.questions cs x)
        (t.expressionsRead cs x) (r.statement s x) (t.body cs f n s x))) ∧
    (∀ (c : Cursor) rule arguments last, c.arguments rule {} = .ok (arguments, last) →
      ∃ params, c.Params params last ∧ arguments.InOrder params) ∧
    (∀ steps : List PathStep, s.PathInOrder steps) ∧
    (∀ before x rest text ds events e es last,
      (r.program s before).run cs = ⟨.ok text, ds, events⟩ →
      (r.statement s x).run ds = ⟨.error e, es, last⟩ →
      (r.program s (before ++ x :: rest)).run cs = ⟨.error e, es, events ++ last⟩) ∧
    (∀ name helper, builtin? name = some helper → ∀ call, (helper call).PassesOn) ∧
    (∀ g h e es last, Relation.ReflTransGen (Frame.Relays t f) g h →
      (h.outcome t f).Aborts e es last → (g.outcome t f).Aborts e es last) ∧
    (∀ p v, parse t.source = .ok p → f = Template.standAlone Template.standAloneLimit →
      (t.render v).run cs = Frame.outcome t f ⟨0, p, .root v, cs⟩) := by
  refine ⟨fun x => ⟨Template.isQuestion_of_mem_questions x, fun e he => ?_, fun h => ?_⟩,
    fun c rule arguments last h => ?_, fun steps => s.pathInOrder steps,
    fun before x rest text ds events e es last hbefore hx => ?_,
    fun name helper hbuiltin => passesOn_builtin hbuiltin,
    fun g h e es last hgh hh => Frame.aborts_of_reached hgh hh, fun p v hp hf => ?_⟩
  · exact t.run_of_refusal f n s cs he
  · exact t.readsFirst f n s cs h
  · obtain ⟨params, hparams, horder⟩ := Cursor.exists_params h
    exact ⟨params, hparams, horder [] Arguments.inOrder_nil⟩
  · exact Renderer.run_program_of_error _ rest hbefore hx
  · subst hf
    rw [Template.render, Template.renderLevel_eq, Template.renderWith, hp]
    exact congrArg (Render.run · cs) (renderProgram_eq t _ _ p (.root v))

end

/-- A host object whose field `bad` cannot be read. -/
def faultyHost : Host Value where
  identity := 0
  typeName := "Faulty"
  fieldNames := ["ok", "bad", "more"]
  readField key :=
    if key = "bad" then .error ⟨"Faulty", "bad", "broken"⟩ else .ok (some (.string key))

/-- A tag in a block of `with` has `x` written before and after `y`: the later expression of `x` is
read, then that of `y`, which fails, and nothing after it. A tag without a helper reads nothing. -/
theorem host_reads_in_order_faulty :
    let field (name : String) : Expression := .path ⟨[.field name], name⟩
    let named := NamedParams.ofList
      [("x", field "ok"), ("y", field "bad"), ("x", field "more"), ("z", field "ok")]
    let tag : Statement := .tag (field "log") ⟨[], named⟩ true
    let block : Statement := .block ⟨[.field "with"], "with"⟩ ⟨[field "h"], {}⟩ [tag] []
    let t : Template := { source := "", own := .global }
    let f := Template.standAlone Template.standAloneLimit
    let s := Scope.root (.object [("h", .host faultyHost)])
    let reads : List Event := [.read ⟨faultyHost, "more"⟩, .read ⟨faultyHost, "bad"⟩]
    (Frame.outcome t f ⟨0, [block, .raw "later"], s, .empty⟩).Aborts
        (.hostAccess ⟨"Faulty", "bad", "broken"⟩) .empty reads ∧
      ((t.rendererIn f 0).statement s (.tag (field "nope") ⟨[field "h"], named⟩ true)).run .empty =
        ⟨.error (.missingHelper "nope"), .empty, []⟩ := by
  intro field named tag block t f s reads
  let inner := s.child (.host faultyHost) ∅
  obtain ⟨hstatements, -, -, hprogram, hpasses, hframes, -⟩ := host_reads_in_order t f 0 inner .empty
  obtain ⟨houter, -⟩ := host_reads_in_order t f 0 s .empty
  obtain ⟨-, -, hreads⟩ := hstatements tag
  have hsplit : t.expressionsRead .empty tag = [field "more"] ++ field "bad" :: [field "ok"] := rfl
  have htag : ((t.rendererIn f 0).statement inner tag).run .empty =
      ⟨.error (.hostAccess ⟨"Faulty", "bad", "broken"⟩), .empty, reads⟩ := by
    refine (hreads rfl).fault hsplit (fun x hx => ?_) rfl
    cases List.mem_singleton.mp hx
    exact ⟨_, rfl⟩
  have hsection : (Frame.outcome t f ⟨0, [tag], inner, .empty⟩).Aborts
      (.hostAccess ⟨"Faulty", "bad", "broken"⟩) .empty reads := by
    have hrun := hprogram [] tag [] "" .empty [] _ _ _ rfl htag
    exact ⟨congrArg Outcome.result hrun, congrArg Outcome.contexts hrun,
      (congrArg Outcome.events hrun).symm ▸ List.suffix_refl _⟩
  have hrelays : Frame.Relays t f ⟨0, [block, .raw "later"], s, .empty⟩
      ⟨0, [tag], inner, .empty⟩ := by
    have hbefore : ((t.rendererIn f 0).program s []).run .empty = ⟨.ok "", .empty, []⟩ := rfl
    have hrun : (Builtin.withHelper (s.blockCall "with" [.host faultyHost] [] [tag] [])).Runs
        (t.blockMeans f 0 s [tag] []) .empty ⟨.main, .host faultyHost, ∅, .empty⟩ := .here
    refine .statement hbefore (.block (.intro rfl rfl rfl rfl hrun)) ?_
    intro name hname helper hhelper
    cases hname
    cases hhelper
    exact hpasses "with" _ rfl
  exact ⟨hframes _ _ _ _ _ (.single hrelays) hsection, (houter _).2.1 _ rfl⟩

end Stencil
