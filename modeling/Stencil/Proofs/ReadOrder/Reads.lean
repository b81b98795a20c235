import Stencil.Proofs.Occurs
import Stencil.Proofs.Resolution
import Stencil.Template.Render

/-!
Reads in order. The fields that a path reads step by step, and what holds of a rendering that reads
some expressions one after the other before it goes on with their values.
-/
namespace Stencil

/-! Paths. -/

/-- The fields that one step of a path reads. -/
def Scope.stepReads (v : Value) : PathStep → List FieldRead
  | .field key =>
    match v.answer key with
    | .field host => [⟨host, key⟩]
    | .known _ => []
  | .this | .parent | .datum _ => []

theorem Scope.reads_step (level : Level) (v : Value) (x : PathStep) :
    (step level v x).reads = stepReads v x := by
  cases x with
  | field key =>
    rw [step, Value.access, stepReads]
    cases v.answer key <;> rfl
  | this | parent | datum name => rfl

/-- Steps that lead from a value to another, and the fields that they read. -/
inductive Scope.Walk (level : Level) : Value → List PathStep → Value → List FieldRead → Prop
  | nil {v} : Walk level v [] v []
  | step {v x next rest w reads} : (Scope.step level v x).result = .ok (some next) →
      Walk level next rest w reads → Walk level v (x :: rest) w (stepReads v x ++ reads)

theorem Scope.follow_of_present {level : Level} {v next : Value} {x : PathStep}
    (rest : List PathStep) (h : (step level v x).result = .ok (some next)) :
    follow level v (x :: rest) =
      ⟨stepReads v x ++ (follow level next rest).reads, (follow level next rest).result⟩ := by
  rw [← reads_step level, follow]
  simp only [Bind.bind, Reading.bind, h]

theorem Scope.follow_of_absent {level : Level} {v : Value} {x : PathStep} (rest : List PathStep)
    (h : ∀ next, (step level v x).result ≠ .ok (some next)) :
    follow level v (x :: rest) = ⟨stepReads v x, (step level v x).result⟩ := by
  rw [← reads_step level, follow]
  simp only [Bind.bind, Reading.bind]
  cases hr : (step level v x).result with
  | error e => rfl
  | ok found =>
    cases found with
    | none => simp [Pure.pure, Reading.pure]
    | some next => exact absurd hr (h next)

/-- The steps of a path are taken from left to right, up to the first that leads nowhere or fails;
what follows that is not read. -/
theorem Scope.follow_walk (level : Level) (v : Value) (steps : List PathStep) :
    ∃ before w reads, Walk level v before w reads ∧
      (steps = before ∧ follow level v steps = ⟨reads, .ok (some w)⟩ ∨
        ∃ x after, steps = before ++ x :: after ∧
          (∀ next, (step level w x).result ≠ .ok (some next)) ∧
          follow level v steps = ⟨reads ++ stepReads w x, (step level w x).result⟩) := by
  induction steps generalizing v with
  | nil => exact ⟨[], v, [], .nil, .inl ⟨rfl, rfl⟩⟩
  | cons x rest ih =>
    by_cases hpresent : ∃ next, (step level v x).result = .ok (some next)
    · obtain ⟨next, hnext⟩ := hpresent
      obtain ⟨before, w, reads, hwalk, hrest⟩ := ih next
      refine ⟨x :: before, w, _, .step hnext hwalk, ?_⟩
      rw [follow_of_present rest hnext]
      rcases hrest with ⟨rfl, hfollow⟩ | ⟨y, after, rfl, habsent, hfollow⟩
      · exact .inl ⟨rfl, by rw [hfollow]⟩
      · exact .inr ⟨y, after, rfl, habsent, by rw [hfollow, List.append_assoc]⟩
    · have habsent (next : Value) : (step level v x).result ≠ .ok (some next) :=
        fun hnext => hpresent ⟨next, hnext⟩
      exact ⟨[], v, [], .nil, .inr ⟨x, rest, rfl, habsent, follow_of_absent rest habsent⟩⟩

/-- A path is read step by step: it climbs first, reading nothing, and then takes its steps from left
to right up to the first that leads nowhere or fails. -/
def Scope.PathInOrder (s : Scope) (steps : List PathStep) : Prop :=
  match s.ancestor? (steps.takeWhile (· == .parent)).length with
  | none => s.resolve steps = ⟨[], .ok none⟩
  | some u => ∃ before w reads, Walk u.level u.value before w reads ∧
    (steps.dropWhile (· == .parent) = before ∧ s.resolve steps = ⟨reads, .ok (some w)⟩ ∨
      ∃ x after, steps.dropWhile (· == .parent) = before ++ x :: after ∧
        (∀ next, (step u.level w x).result ≠ .ok (some next)) ∧
        s.resolve steps = ⟨reads ++ stepReads w x, (step u.level w x).result⟩)

theorem Scope.pathInOrder (s : Scope) (steps : List PathStep) : s.PathInOrder steps := by
  rw [PathInOrder, resolve]
  cases s.ancestor? (steps.takeWhile (· == .parent)).length with
  | none => rfl
  | some u => exact follow_walk u.level u.value _

/-! Expressions. -/

/-- The reading that an expression stands for. -/
def Scope.read (s : Scope) : Expression → Reading (Option Value)
  | .path p => s.resolve p.steps
  | .string text => pure (some (.string text))
  | .numeral n => pure (some (if n.isBoolean then .bool n.value.isPositive else .number n.value))

/-- The events of reading expressions one after the other. -/
def Scope.readEvents (s : Scope) (es : List Expression) : List Event :=
  es.flatMap fun e => (s.read e).reads.map .read

/-- The values that expressions are read to. One that leads nowhere is null. -/
def Scope.ReadsTo (s : Scope) (es : List Expression) (vs : List Value) : Prop :=
  List.Forall₂ (fun e v => ∃ found, (s.read e).result = .ok found ∧ v = found.getD .null) es vs

/-- A rendering that asks questions, reads expressions in order and goes on with their values. The
first read that fails ends it. -/
structure Render.ReadsFirst {α : Type} (s : Scope) (cs : Contexts) (questions : List Event)
    (es : List Expression) (m : Render α) (body : List Value → Render α) : Prop where
  all {vs : List Value} : s.ReadsTo es vs → m.run cs =
    { (body vs).run cs with
      events := questions ++ (s.readEvents es ++ ((body vs).run cs).events) }
  fault {before after : List Expression} {e : Expression} {failure : HostAccessError} :
    es = before ++ e :: after → (∀ x ∈ before, ∃ found, (s.read x).result = .ok found) →
    (s.read e).result = .error failure →
    m.run cs = ⟨.error (.hostAccess failure), cs, questions ++ s.readEvents (before ++ [e])⟩

section
variable {α β : Type} {s : Scope} {cs : Contexts} {questions : List Event} {es : List Expression}

theorem Render.evaluate?_eq (s : Scope) (e : Expression) : evaluate? s e = reading (s.read e) := by
  cases e <;> rfl

theorem Render.run_reading (r : Reading α) :
    (reading r).run cs = ⟨r.result.mapError .hostAccess, cs, r.reads.map .read⟩ := rfl

theorem Render.run_evaluate_of_ok {e : Expression} {found : Option Value}
    (h : (s.read e).result = .ok found) :
    (evaluate s e).run cs = ⟨.ok (found.getD .null), cs, (s.read e).reads.map .read⟩ := by
  have hrun : (evaluate? s e).run cs = ⟨.ok found, cs, (s.read e).reads.map .read⟩ := by
    rw [evaluate?_eq, run_reading, h]
    rfl
  rw [evaluate, run_bind_of_run hrun, run_pure, List.append_nil]

theorem Render.run_evaluate_of_error {e : Expression} {failure : HostAccessError}
    (h : (s.read e).result = .error failure) :
    (evaluate s e).run cs =
      ⟨.error (.hostAccess failure), cs, (s.read e).reads.map .read⟩ := by
  have hrun : (evaluate? s e).run cs =
      ⟨.error (.hostAccess failure), cs, (s.read e).reads.map .read⟩ := by
    rw [evaluate?_eq, run_reading, h]
    rfl
  rw [evaluate, run_bind_of_error (by rw [hrun]), hrun]

namespace Render.ReadsFirst

variable {m : Render α} {body : List Value → Render α}

/-- Nothing is read. -/
theorem nil (h : m = body []) : ReadsFirst s cs [] [] m body where
  all hvs := by
    cases hvs
    rw [h]
    rfl
  fault h := by simp at h

/-- One expression is read, then the others. -/
theorem cons {e : Expression} {k : Value → Render α}
    (h : ∀ v, ReadsFirst s cs [] es (k v) fun vs => body (v :: vs)) :
    ReadsFirst s cs [] (e :: es) (evaluate s e >>= k) body where
  all {vs} hvs := by
    obtain ⟨v, ws, ⟨found, hfound, rfl⟩, hws, rfl⟩ := List.forall₂_cons_left_iff.mp hvs
    have hrest := (h (found.getD .null)).all hws
    rw [run_bind_of_run (run_evaluate_of_ok hfound), hrest]
    simp [Scope.readEvents]
  fault {before after e' failure} heq hbefore hfails := by
    cases before with
    | nil =>
      obtain ⟨rfl, rfl⟩ := List.cons.inj heq
      rw [run_bind_of_error (by rw [run_evaluate_of_error hfails]), run_evaluate_of_error hfails]
      simp [Scope.readEvents]
    | cons first before =>
      obtain ⟨rfl, rfl⟩ := List.cons.inj heq
      obtain ⟨found, hfound⟩ := hbefore e (.head _)
      have hrest := (h (found.getD .null)).fault rfl (fun x hx => hbefore x (.tail _ hx)) hfails
      rw [run_bind_of_run (run_evaluate_of_ok hfound), hrest]
      simp [Scope.readEvents]

theorem evaluateAll {fs : List Expression} {k : List Value → Render α}
    (h : ∀ vs, vs.length = fs.length → ReadsFirst s cs [] es (k vs) fun ws => body (vs ++ ws)) :
    ReadsFirst s cs [] (fs ++ es) (Render.evaluateAll s fs >>= k) body := by
  induction fs generalizing k body with
  | nil =>
    rw [Render.evaluateAll, pure_bind]
    exact h [] rfl
  | cons e rest ih =>
    rw [Render.evaluateAll, bind_assoc]
    refine cons fun v => ?_
    simp only [bind_assoc, pure_bind]
    exact ih fun vs hvs => h (v :: vs) (congrArg (· + 1) hvs)

theorem evaluateNamed {named : List (String × Expression)}
    {k : List (String × Value) → Render α}
    (h : ∀ vs, vs.length = named.length →
      ReadsFirst s cs [] es (k ((named.map (·.1)).zip vs)) fun ws => body (vs ++ ws)) :
    ReadsFirst s cs [] (named.map (·.2) ++ es) (Render.evaluateNamed s named >>= k) body := by
  induction named generalizing k body with
  | nil =>
    rw [Render.evaluateNamed, pure_bind]
    exact h [] rfl
  | cons entry rest ih =>
    rw [Render.evaluateNamed, bind_assoc]
    refine cons fun v => ?_
    simp only [bind_assoc, pure_bind]
    exact ih fun vs hvs => h (v :: vs) (congrArg (· + 1) hvs)

/-- Questions come before the reads. -/
theorem asked {q : Render β} {a : β} {k : β → Render α} (hq : q.run cs = ⟨.ok a, cs, questions⟩)
    (h : ReadsFirst s cs [] es (k a) body) : ReadsFirst s cs questions es (q >>= k) body where
  all hvs := by
    rw [run_bind_of_run hq, h.all hvs]
    rfl
  fault heq hbefore hfails := by
    rw [run_bind_of_run hq, h.fault heq hbefore hfails]
    rfl

/-- What comes after the body is not begun where a read fails. -/
theorem bind {g : α → Render β} (h : ReadsFirst s cs questions es m body) :
    ReadsFirst s cs questions es (m >>= g) fun vs => body vs >>= g where
  all {vs} hvs := by
    have hm := h.all hvs
    cases hr : ((body vs).run cs).result with
    | error e =>
      rw [run_bind_of_error (by rw [hm, hr]), run_bind_of_error hr, hm]
    | ok a =>
      rw [run_bind_of_ok (by rw [hm, hr]), run_bind_of_ok hr, hm]
      simp
  fault heq hbefore hfails := by
    have hm := h.fault heq hbefore hfails
    rw [run_bind_of_error (by rw [hm]), hm]

end Render.ReadsFirst

end

/-! Calls. -/

/-- The values of the positional parameters among those of all parameters. -/
def Arguments.positionalValues (arguments : Arguments) (vs : List Value) : List Value :=
  vs.take arguments.positional.length

/-- The values of the named parameters among those of all parameters, with their names. -/
def Arguments.namedValues (arguments : Arguments) (vs : List Value) : List (String × Value) :=
  (arguments.named.entries.map (·.1)).zip (vs.drop arguments.positional.length)

/-- The positional parameters of a call are read before the named ones. -/
theorem Render.ReadsFirst.call {α : Type} {s : Scope} {cs : Contexts} (arguments : Arguments)
    (k : List Value → List (String × Value) → Render α) :
    ReadsFirst s cs [] arguments.expressions
      (do
        let params ← Render.evaluateAll s arguments.positional
        let named ← Render.evaluateNamed s arguments.named.entries
        k params named)
      fun vs => k (arguments.positionalValues vs) (arguments.namedValues vs) := by
  refine evaluateAll fun params hparams => ?_
  rw [← List.append_nil (arguments.named.entries.map (·.2))]
  refine evaluateNamed fun named _ => nil ?_
  rw [List.append_nil, Arguments.positionalValues, Arguments.namedValues,
    List.take_left' hparams, List.drop_left' hparams]

end Stencil
