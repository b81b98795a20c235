import Stencil.Proofs.Written.Tree
import Stencil.Template
import Mathlib.Data.List.Nodup

/-!
What names stand for. A template asks the contexts of its chain one by one, and the first that has
an answer settles the lookup. Each lookup is given here as a whole: its result, and the questions
that delegates were asked on the way, the contexts being left as they are.
-/
namespace Stencil

/-! One context. -/

namespace ExecutionContext

variable (c : ExecutionContext)

/-- The helper that a context has for a name: a registered one, else its delegate's. -/
def helper? (name : String) : Option Helper :=
  (c.helpers.get? name).or (c.delegate.bind (·.helper? name))

/-- The partial that a context has for a name: a registered one, else its delegate's, else the text
that its delegate supplies, which need not parse. -/
def partial? (name : String) : Option (Except ParseError Partial) :=
  match c.partials.get? name, c.delegate.bind (·.partial? name) with
  | some p, _ => some (.ok p)
  | none, some p => some (.ok p)
  | none, none => (c.delegate.bind (·.partialSource? name)).map Partial.compile

def translation? (text : String) : Option String := c.delegate.bind (·.translation? text)

def escaped? (format raw : String) : Option String := c.delegate.bind (·.escaped? raw format)

/-- The question that the delegate of a context is asked, if there is one. -/
def asks (id : ContextId) (hook : Hook) (subject : String) : List Event :=
  c.delegate.toList.map fun d => .asked id d.label hook subject

/-- A delegate is asked for a helper that is not registered. -/
def asksHelper (name : String) (id : ContextId) : List Event :=
  if (c.helpers.get? name).isSome then [] else c.asks id .helper name

/-- A delegate is asked for a partial that is not registered, and for its text if it has no partial
for the name. -/
def asksPartial (name : String) (id : ContextId) : List Event :=
  if (c.partials.get? name).isSome then []
  else c.asks id .partialBody name ++
    if (c.delegate.bind (·.partial? name)).isSome then [] else c.asks id .partialSource name

end ExecutionContext

/-! The chain of contexts. -/

/-- The contexts up to the first that has an answer, and that one. -/
def upTo (answers : ContextId → Bool) : List ContextId → List ContextId
  | [] => []
  | id :: rest => if answers id then [id] else id :: upTo answers rest

theorem sublist_upTo (answers : ContextId → Bool) (ids : List ContextId) :
    (upTo answers ids).Sublist ids := by
  induction ids with
  | nil => exact .slnil
  | cons id rest ih =>
    rw [upTo]
    split
    · exact (List.nil_sublist rest).cons_cons id
    · exact ih.cons_cons id

namespace Template

variable (t : Template) (cs : Contexts)

/-- The first answer that a context of the chain has. -/
def first? {α : Type} (answer : ExecutionContext → Option α) : Option α :=
  t.chain.findSome? fun id => answer (cs.get id)

/-- What the contexts of the chain ask their delegates, one after the other up to the first that has
an answer. -/
def asked {α : Type} (answer : ExecutionContext → Option α)
    (asks : ExecutionContext → ContextId → List Event) : List Event :=
  (upTo (fun id => (answer (cs.get id)).isSome) t.chain).flatMap fun id => asks (cs.get id) id

end Template

/-- The result of asking contexts whose first answer is `found`, which may be an error. -/
def settled {α : Type} (found : Option (Except RenderError α)) : Except RenderError (Option α) :=
  found.elim (.ok none) (·.map some)

section
variable {α β : Type} {cs : Contexts}

theorem Render.run_bind_of_run {m : Render α} {f : α → Render β} {a : α} {events : List Event}
    (h : m.run cs = ⟨.ok a, cs, events⟩) :
    (m >>= f).run cs = { (f a).run cs with events := events ++ ((f a).run cs).events } := by
  rw [run_bind_of_ok (by rw [h]), h]

theorem Render.run_context (id : ContextId) :
    (Render.context id).run cs = ⟨.ok (cs.get id), cs, []⟩ := rfl

theorem ContextId.run_ask (id : ContextId) (hook : Hook) (subject : String)
    (answer : Delegate → Option α) :
    (id.ask hook subject answer).run cs =
      ⟨.ok ((cs.get id).delegate.bind answer), cs, (cs.get id).asks id hook subject⟩ := by
  rw [ask, Render.run_bind_of_run (Render.run_context id), ExecutionContext.asks]
  cases (cs.get id).delegate <;> rfl

/-- The contexts after the first that has an answer are not asked. -/
theorem run_firstAnswer {question : ContextId → Render (Option α)}
    {answer : ContextId → Option (Except RenderError α)} {asks : ContextId → List Event}
    (h : ∀ id, (question id).run cs = ⟨settled (answer id), cs, asks id⟩) (ids : List ContextId) :
    (firstAnswer question ids).run cs =
      ⟨settled (ids.findSome? answer), cs,
        (upTo (fun id => (answer id).isSome) ids).flatMap asks⟩ := by
  induction ids with
  | nil => rfl
  | cons id rest ih =>
    rw [firstAnswer, List.findSome?_cons, upTo]
    -- only a context that declines lets the next one be asked; an error ends the search as well
    cases ha : answer id with
    | none =>
      rw [Render.run_bind_of_run ((h id).trans (by rw [ha]; rfl))]
      simp [ih]
    | some found =>
      cases found with
      | ok a =>
        rw [Render.run_bind_of_run ((h id).trans (by rw [ha]; rfl))]
        simp [Render.run_pure, settled, Except.map]
      | error e =>
        rw [Render.run_bind_of_error (by rw [h id, ha]; rfl), h id]
        simp [settled, Except.map]

/-- Where no context answers with an error. -/
theorem run_firstAnswer_ok {question : ContextId → Render (Option α)}
    {answer : ContextId → Option α} {asks : ContextId → List Event}
    (h : ∀ id, (question id).run cs = ⟨.ok (answer id), cs, asks id⟩) (ids : List ContextId) :
    (firstAnswer question ids).run cs =
      ⟨.ok (ids.findSome? answer), cs, (upTo (fun id => (answer id).isSome) ids).flatMap asks⟩ := by
  have hsettled (found : Option α) : settled (found.map .ok) = .ok found := by
    cases found <;> rfl
  have hquestion (id : ContextId) :
      (question id).run cs = ⟨settled ((answer id).map .ok), cs, asks id⟩ := by
    rw [h, hsettled]
  rw [run_firstAnswer hquestion, ← hsettled]
  simp [List.map_findSome?, Function.comp_def]

end

/-! The lookups of a template. -/

section
variable (t : Template) (cs : Contexts)

theorem ContextId.run_helper? (id : ContextId) (name : String) :
    (id.helper? name).run cs =
      ⟨.ok ((cs.get id).helper? name), cs, (cs.get id).asksHelper name id⟩ := by
  rw [helper?, Render.run_bind_of_run (Render.run_context id), ExecutionContext.helper?,
    ExecutionContext.asksHelper]
  cases (cs.get id).helpers.get? name with
  | some helper => rfl
  | none => simp [run_ask]

theorem ContextId.run_partial? (id : ContextId) (name : String) :
    (id.partial? name).run cs =
      ⟨settled (((cs.get id).partial? name).map (·.mapError (.invalidPartial name))), cs,
        (cs.get id).asksPartial name id⟩ := by
  rw [partial?, Render.run_bind_of_run (Render.run_context id), ExecutionContext.partial?,
    ExecutionContext.asksPartial]
  cases (cs.get id).partials.get? name with
  | some p => rfl
  | none =>
    rw [Render.run_bind_of_run (id.run_ask .partialBody name _)]
    cases (cs.get id).delegate.bind (·.partial? name) with
    | some p => simp [Render.run_pure, settled, Except.mapError, Except.map]
    | none =>
      rw [partialFromSource?, Render.run_bind_of_run (id.run_ask .partialSource name _)]
      cases (cs.get id).delegate.bind (·.partialSource? name) with
      | none => simp [Render.run_pure, settled]
      | some source =>
        dsimp only [Option.map_some]
        cases Partial.compile source with
        | ok p => simp [Render.run_pure, settled, Except.mapError, Except.map]
        | error e => simp [Render.run_fail, settled, Except.mapError, Except.map]

theorem ContextId.run_localize? (id : ContextId) (text : String) :
    (id.localize? text).run cs =
      ⟨.ok ((cs.get id).translation? text), cs, (cs.get id).asks id .translation text⟩ :=
  id.run_ask .translation text _

theorem ContextId.run_escape? (id : ContextId) (raw format : String) :
    (id.escape? raw format).run cs =
      ⟨.ok ((cs.get id).escaped? format raw), cs, (cs.get id).asks id .escape raw⟩ :=
  id.run_ask .escape raw _

theorem Template.run_helper? (name : String) :
    (t.helper? name).run cs =
      ⟨.ok ((t.first? cs (·.helper? name)).or (builtin? name)), cs,
        t.asked cs (·.helper? name) (·.asksHelper name)⟩ := by
  rw [helper?, Render.run_bind_of_run (run_firstAnswer_ok (ContextId.run_helper? cs · name) _),
    first?, asked]
  cases t.chain.findSome? fun id => (cs.get id).helper? name <;> simp [Render.run_pure]

theorem Template.run_partial? (name : String) :
    (t.partial? name).run cs =
      ⟨match t.first? cs (·.partial? name) with
        | none => .ok none
        | some (.ok p) => .ok (some p)
        | some (.error e) => .error (.invalidPartial name e), cs,
        t.asked cs (·.partial? name) (·.asksPartial name)⟩ := by
  rw [partial?, run_firstAnswer (ContextId.run_partial? cs · name), first?, asked]
  simp only [Option.isSome_map]
  congr 1
  rw [← Function.comp_def, ← List.map_findSome?]
  rcases t.chain.findSome? fun id => (cs.get id).partial? name with _ | _ | _ <;> rfl

theorem Template.run_localize (text : String) :
    (t.localize text).run cs =
      ⟨.ok ((t.first? cs (·.translation? text)).getD text), cs,
        t.asked cs (·.translation? text) (·.asks · .translation text)⟩ := by
  rw [localize,
    Render.run_bind_of_run (run_firstAnswer_ok (ContextId.run_localize? cs · text) _)]
  simp [Render.run_pure, first?, asked]

theorem Template.run_escape (raw : String) :
    (t.escape raw).run cs =
      ⟨.ok ((t.first? cs (·.escaped? t.options.targetFormat raw)).getD (escapeHtml raw)), cs,
        t.asked cs (·.escaped? t.options.targetFormat raw) (·.asks · .escape raw)⟩ := by
  rw [escape, Render.run_bind_of_run (run_firstAnswer_ok (ContextId.run_escape? cs · raw _) _)]
  simp [Render.run_pure, first?, asked]

/-! How often a delegate is asked. -/

/-- Whether a question is put to the delegate of a context under a hook. -/
def Event.asks (id : ContextId) (hook : Hook) : Event → Bool
  | .asked other _ h _ => other = id ∧ h = hook
  | .read _ | .logged .. | .called _ => false

/-- A context asks its delegate under no hook twice, and no other. -/
def AsksOnce (asks : ContextId → List Event) : Prop :=
  ∀ id other hook, (asks id).countP (·.asks other hook) ≤ if id = other then 1 else 0

theorem countP_flatMap_le {asks : ContextId → List Event} (h : AsksOnce asks)
    (ids : List ContextId) (id : ContextId) (hook : Hook) :
    (ids.flatMap asks).countP (·.asks id hook) ≤ ids.count id := by
  induction ids with
  | nil => exact Nat.le_refl 0
  | cons first rest ih =>
    have hfirst := h first id hook
    rw [List.flatMap_cons, List.countP_append, List.count_cons]
    simp only [beq_iff_eq]
    omega

theorem Template.countP_asked_le (hchain : t.chain.Nodup) {α : Type}
    (answer : ExecutionContext → Option α) {asks : ExecutionContext → ContextId → List Event}
    (h : AsksOnce fun id => asks (cs.get id) id) (id : ContextId) (hook : Hook) :
    (t.asked cs answer asks).countP (·.asks id hook) ≤ 1 :=
  Nat.le_trans (countP_flatMap_le h _ id hook)
    (List.nodup_iff_count_le_one.mp (hchain.sublist (sublist_upTo _ _)) id)

theorem ExecutionContext.countP_asks_le (c : ExecutionContext) (id : ContextId) (hook : Hook)
    (subject : String) (other : ContextId) (hook' : Hook) :
    (c.asks id hook subject).countP (·.asks other hook') ≤
      if id = other ∧ hook = hook' then 1 else 0 := by
  rw [asks]
  cases c.delegate with
  | none => simp
  | some d => by_cases h : id = other ∧ hook = hook' <;> simp [Event.asks, h]

theorem asksOnce_asks (hook : Hook) (subject : String) :
    AsksOnce fun id => (cs.get id).asks id hook subject := by
  intro id other hook'
  have hasks := (cs.get id).countP_asks_le id hook subject other hook'
  grind

theorem asksOnce_asksHelper (name : String) :
    AsksOnce fun id => (cs.get id).asksHelper name id := by
  intro id other hook
  dsimp only [ExecutionContext.asksHelper]
  split
  · exact Nat.zero_le _
  · exact asksOnce_asks cs .helper name id other hook

theorem asksOnce_asksPartial (name : String) :
    AsksOnce fun id => (cs.get id).asksPartial name id := by
  intro id other hook
  have hbody := (cs.get id).countP_asks_le id .partialBody name other hook
  have hsource := (cs.get id).countP_asks_le id .partialSource name other hook
  dsimp only [ExecutionContext.asksPartial]
  split
  · exact Nat.zero_le _
  · rw [List.countP_append]
    -- the two questions are put under different hooks, so at most one of them counts
    split
    · grind
    · grind

theorem Template.chain_nodup (hglobal : t.own ≠ .global) (hshared : t.shared ≠ some t.own) :
    t.chain.Nodup := by
  rw [chain]
  cases hs : t.shared with
  | none => simp [hglobal]
  | some id =>
    have hid : t.own ≠ id := fun h => hshared (by rw [hs, h])
    by_cases h : id = .global
    · simp [h, hglobal]
    · simp [h, hglobal, hid]

theorem Partial.compile_of_error {source : String} {e : ParseError} (h : parse source = .error e) :
    Partial.compile source = .error e := by
  unfold compile
  split
  next p hp => rw [h] at hp; cases hp
  next f hf => rw [h] at hf; cases hf; rfl

/-- A text that does not parse ends the search for a partial, whatever the later contexts hold. -/
theorem Template.result_partial?_of_error {name source : String} {before after : List ContextId}
    {id : ContextId} {d : Delegate} {e : ParseError} (hchain : t.chain = before ++ id :: after)
    (hbefore : ∀ other ∈ before, (cs.get other).partial? name = none)
    (hregistry : (cs.get id).partials.get? name = none) (hdelegate : (cs.get id).delegate = some d)
    (hbody : d.partial? name = none) (hsource : d.partialSource? name = some source)
    (he : parse source = .error e) :
    ((t.partial? name).run cs).result = .error (.invalidPartial name e) := by
  have hhere : (cs.get id).partial? name = some (.error e) := by
    simp [ExecutionContext.partial?, hregistry, hdelegate, hbody, hsource,
      Partial.compile_of_error he]
  have hfirst : t.first? cs (·.partial? name) = some (.error e) := by
    rw [first?, hchain, List.findSome?_append, List.findSome?_eq_none_iff.mpr hbefore]
    simp [hhere]
  rw [run_partial?, hfirst]

/-- Names are looked up along the chain of a template: its own context, the shared one if there is
one, and the global one, which is not asked twice. The first context that has an answer settles a
lookup, as given here with the contexts that it leaves and the questions that delegates are asked.
A text that does not parse settles it as an error. Where the template's own context is no other, as
it is made for the template, no delegate is asked under one hook twice. -/
theorem lookups_in_turn :
    (t.chain = match t.shared with
      | none => [t.own, .global]
      | some id => if id = .global then [t.own, .global] else [t.own, id, .global]) ∧
    (∀ name, (t.helper? name).run cs =
      ⟨.ok ((t.first? cs (·.helper? name)).or (builtin? name)), cs,
        t.asked cs (·.helper? name) (·.asksHelper name)⟩) ∧
    (∀ name, (t.partial? name).run cs =
      ⟨match t.first? cs (·.partial? name) with
        | none => .ok none
        | some (.ok p) => .ok (some p)
        | some (.error e) => .error (.invalidPartial name e), cs,
        t.asked cs (·.partial? name) (·.asksPartial name)⟩) ∧
    (∀ name before id after d source e, t.chain = before ++ id :: after →
      (∀ other ∈ before, (cs.get other).partial? name = none) →
      (cs.get id).partials.get? name = none → (cs.get id).delegate = some d →
      d.partial? name = none → d.partialSource? name = some source → parse source = .error e →
      ((t.partial? name).run cs).result = .error (.invalidPartial name e)) ∧
    (∀ text, (t.localize text).run cs =
      ⟨.ok ((t.first? cs (·.translation? text)).getD text), cs,
        t.asked cs (·.translation? text) (·.asks · .translation text)⟩) ∧
    (∀ raw, (t.escape raw).run cs =
      ⟨.ok ((t.first? cs (·.escaped? t.options.targetFormat raw)).getD (escapeHtml raw)), cs,
        t.asked cs (·.escaped? t.options.targetFormat raw) (·.asks · .escape raw)⟩) ∧
    (t.own ≠ .global → t.shared ≠ some t.own → ∀ subject id hook,
      ∀ events ∈ [((t.helper? subject).run cs).events, ((t.partial? subject).run cs).events,
        ((t.localize subject).run cs).events, ((t.escape subject).run cs).events],
        events.countP (·.asks id hook) ≤ 1) := by
  refine ⟨?_, t.run_helper? cs, t.run_partial? cs, ?_, t.run_localize cs, t.run_escape cs, ?_⟩
  · rw [Template.chain]
    cases t.shared with
    | none => rfl
    | some id => by_cases h : id = .global <;> simp [h]
  · intro name before id after d source e hchain hbefore hregistry hdelegate hbody hsource he
    exact t.result_partial?_of_error cs hchain hbefore hregistry hdelegate hbody hsource he
  · intro hglobal hshared subject id hook events hevents
    have hchain := t.chain_nodup hglobal hshared
    simp only [t.run_helper? cs, t.run_partial? cs, t.run_localize cs, t.run_escape cs,
      List.mem_cons, List.not_mem_nil, or_false] at hevents
    rcases hevents with rfl | rfl | rfl | rfl
    · exact t.countP_asked_le cs hchain _ (asksOnce_asksHelper cs subject) id hook
    · exact t.countP_asked_le cs hchain _ (asksOnce_asksPartial cs subject) id hook
    · exact t.countP_asked_le cs hchain _ (asksOnce_asks cs .translation subject) id hook
    · exact t.countP_asked_le cs hchain _ (asksOnce_asks cs .escape subject) id hook

end

/-- Three contexts: the delegate of the template's own one supplies a text that does not parse for a
partial, that of the shared one has a translation, and in the global one the partial is registered,
in vain. -/
theorem lookups_in_turn_three :
    let near : Delegate :=
      { label := some "near", partialSource? := fun _ => some "\x7b\x7b" }
    let far : Delegate := { label := some "far", translation? := fun _ => some "bonjour" }
    let card : Partial := ⟨"", [], Written.parse_empty⟩
    let cs : Contexts := ⟨fun
      | .made 0 => { delegate := some near }
      | .made _ => { delegate := some far }
      | .global => { partials := NameMap.insert ∅ "card" card }
      | .scratch _ => {}⟩
    let t : Template := ⟨"", {}, .made 0, some (.made 1)⟩
    t.chain = [.made 0, .made 1, .global] ∧ (cs.get .global).partial? "card" = some (.ok card) ∧
      (∃ e, (t.partial? "card").run cs = ⟨.error (.invalidPartial "card" e), cs,
        [.asked (.made 0) "near" .partialBody "card",
          .asked (.made 0) "near" .partialSource "card"]⟩) ∧
      (t.localize "hello").run cs = ⟨.ok "bonjour", cs,
        [.asked (.made 0) "near" .translation "hello",
          .asked (.made 1) "far" .translation "hello"]⟩ ∧
      ((t.localize "hello").run cs).events.countP (·.asks (.made 0) .translation) ≤ 1 := by
  intro near far card cs t
  obtain ⟨hchain, -, hpartial, hinvalid, hlocalize, -, honce⟩ := lookups_in_turn t cs
  obtain ⟨e, he⟩ := Written.parse_open
  have hresult := hinvalid "card" [] (.made 0) [.made 1, .global] near _ e rfl (by simp) rfl rfl rfl
    rfl he
  have hrun := hpartial "card"
  rw [hrun] at hresult
  refine ⟨hchain, rfl, ⟨e, hrun.trans ?_⟩, hlocalize "hello",
    honce (by decide) (by decide) "hello" _ _ _ (by simp)⟩
  dsimp only at hresult
  rw [hresult]
  rfl

end Stencil
