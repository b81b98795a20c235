import Stencil.Proofs.ElementLookup
import Stencil.Proofs.PathResolution

/-!
Keys behind paths. What a path leads to with one more field is what the field's key stands for in
what it leads to without, and the helper `lookup` shows the same for the path and the key.
-/
namespace Stencil

/-! Longer paths. -/

theorem Scope.follow_append (level : Level) (v : Value) (first rest : List PathStep) :
    follow level v (first ++ rest) =
      follow level v first >>= fun found => found.elim (pure none) (follow level · rest) := by
  induction first generalizing v with
  | nil => rw [List.nil_append, follow, pure_bind, Option.elim_some]
  | cons x first ih =>
    rw [List.cons_append, follow, follow, bind_assoc]
    congr 1
    funext found
    cases found with
    | none => rw [pure_bind, Option.elim_none]
    | some next => exact ih next

/-- A field behind steps is not among the parents in front of them. -/
theorem parents_concat (steps : List PathStep) (key : String) :
    (steps ++ [PathStep.field key]).takeWhile (· == .parent) = steps.takeWhile (· == .parent) ∧
      (steps ++ [PathStep.field key]).dropWhile (· == .parent) =
        steps.dropWhile (· == .parent) ++ [.field key] := by
  have hfield : (PathStep.field key == .parent) = false := rfl
  induction steps with
  | nil => simp [hfield]
  | cons x steps ih =>
    rw [List.cons_append, List.takeWhile_cons, List.takeWhile_cons, List.dropWhile_cons,
      List.dropWhile_cons]
    split
    · exact ⟨congrArg (x :: ·) ih.1, ih.2⟩
    · exact ⟨rfl, rfl⟩

/-- A field is taken of whatever the steps before it lead to. -/
theorem Scope.resolve_concat (s : Scope) (steps : List PathStep) (key : String) :
    s.resolve (steps ++ [.field key]) =
      s.resolve steps >>= fun found => found.elim (pure none) (·.access key) := by
  obtain ⟨hparents, hrest⟩ := parents_concat steps key
  rw [resolve, resolve, hparents, hrest]
  cases s.ancestor? (steps.takeWhile (· == .parent)).length with
  | none => rw [pure_bind, Option.elim_none]
  | some t => simp only [follow_append, follow_field]

/-! Renderings that read. -/

theorem Render.reading_bind {α β : Type} (m : Reading α) (f : α → Reading β) :
    reading (m >>= f) = reading m >>= fun a => reading (f a) := by
  ext cs
  obtain ⟨reads, result⟩ := m
  cases result with
  | error e => rfl
  | ok a => simp [run, reading, Bind.bind, Reading.bind, Render.bind, Except.mapError]

theorem Render.attemptReading_bind {α β : Type} (m : Reading α) (f : α → Render β) :
    (attemptReading m >>= fun
      | .ok a => f a
      | .error e => fail (.hostAccess e)) = reading m >>= f := by
  ext cs
  obtain ⟨reads, result⟩ := m
  cases result with
  | ok a => rfl
  | error e =>
    simp [run, reading, attemptReading, fail, ofExcept, Bind.bind, Render.bind, Except.mapError]

/-- The helper `lookup` reads its first parameter, then what the key stands for in that. -/
theorem Renderer.invoke_lookup (r : Renderer) (s : Scope) (path : Path) (key : String)
    (inSection : Section → Value → PrivateData → Render String) :
    r.invoke s "lookup" Builtin.lookupHelper .expression ⟨[.path path, .string key], {}⟩ true true
        inSection =
      Render.reading (s.resolve (path.steps ++ [.field key])) >>= fun found =>
        pure (found.elim "" Value.text) := by
  have hparams : Render.evaluateAll s [.path path, .string key] =
      Render.reading (s.resolve path.steps) >>= fun found =>
        pure [found.getD .null, .string key] := by
    simp only [Render.evaluateAll, Render.evaluate, Render.evaluate?, bind_assoc, pure_bind,
      Option.getD_some]
  have hnamed : Render.evaluateNamed s ({} : NamedParams).entries = pure [] := rfl
  rw [invoke, hparams, hnamed, Scope.resolve_concat, Render.reading_bind, bind_assoc, bind_assoc]
  congr 1
  funext found
  rw [pure_bind, pure_bind, ← Render.attemptReading_bind]
  have haccess : (found.getD .null).access key = found.elim (pure none) (·.access key) := by
    cases found <;> rfl
  rw [← haccess]
  change Render.attemptReading _ >>= _ = _
  congr 1
  funext answer
  cases answer <;> rfl

/-- A path that goes on with a field is no single name. -/
theorem Path.helperName?_concat {steps : List PathStep} (h : steps ≠ []) (key source : String) :
    Path.helperName? ⟨steps ++ [.field key], source⟩ = none := by
  obtain ⟨x, rest, rfl⟩ := List.exists_cons_of_ne_nil h
  cases x <;> cases rest <;> rfl

namespace Template

variable (t : Template) (f : String → Value → Render String) (n : Nat) (s : Scope) {cs : Contexts}

theorem run_path {path : Path} (hname : path.helperName? = none) (escaped : Bool) :
    ((t.rendererIn f n).statement s (.tag (.path path) {} escaped)).run cs =
      (Render.reading (s.resolve path.steps) >>= fun found =>
        t.shown escaped (found.elim "" Value.text)).run cs := by
  rw [Renderer.statement_path _ s hname, t.rendererIn_template]

/-- Looking a key up in what a path leads to shows what the path with one more field leads to. -/
theorem run_lookup_path (hlookup : t.HasBuiltin cs "lookup") {path : Path}
    (hpath : path.steps ≠ []) (key word longer : String) (escaped : Bool) :
    let shown := ((t.rendererIn f n).statement s
      (.tag (.path ⟨path.steps ++ [.field key], longer⟩) {} escaped)).run cs
    ((t.rendererIn f n).statement s
        (.tag (.path ⟨[.field "lookup"], word⟩) ⟨[.path path, .string key], {}⟩ escaped)).run cs =
      { shown with
        events := t.headQuestions cs (some ⟨[.field "lookup"], word⟩) ++ shown.events } := by
  intro shown
  have hlonger : shown = (Render.reading (s.resolve (path.steps ++ [.field key])) >>= fun found =>
      t.shown escaped (found.elim "" Value.text)).run cs :=
    t.run_path f n s (Path.helperName?_concat hpath key longer) escaped
  have hhead : t.headed cs (some ⟨[.field "lookup"], word⟩) =
      some ("lookup", Builtin.lookupHelper) := hlookup
  have hrun := t.run_headHelper? f n cs (some ⟨[.field "lookup"], word⟩)
  rw [hhead] at hrun
  rw [hlonger, Renderer.statement, Renderer.tag, Renderer.tagText, bind_assoc, Expression.asPath?,
    Render.run_bind_of_run hrun]
  dsimp only
  rw [Renderer.invoke_lookup, bind_assoc]
  simp only [pure_bind, t.rendererIn_template]
  rfl

/-- Showing a text only asks questions. -/
theorem isQuestion_of_mem_shown (cs : Contexts) (escaped : Bool) (text : String) :
    ∀ event ∈ ((t.shown escaped text).run cs).events, event.IsQuestion := by
  cases escaped with
  | false => nofun
  | true =>
    have hasked : ∀ event ∈ t.asked cs (·.escaped? t.options.targetFormat text)
        (·.asks · .escape text), event.IsQuestion :=
      isQuestion_of_mem_asked fun c id => isQuestion_of_mem_asks c id .escape text
    change ∀ event ∈ ((t.escape text).run cs).events, event.IsQuestion
    rwa [run_escape]

end Template

/-- Lookup is path access. What a path leads to with one more field is what the field's key stands
for in what it leads to without, if anything. Where the name `lookup` stands for the helper of every
template, and the path is one of a text that parses, the helper called with the path and the key
does as the longer path does, both escaped or both not, but for the questions to delegates about the
helper's name:
* If the reading fails, both end with that failure, after the same reads.
* Else both show the text of what the longer path leads to, after the same reads; only questions
  follow those. -/
theorem lookup_is_path_access (s : Scope) (key : String) :
    (∀ steps, s.resolve (steps ++ [.field key]) =
      s.resolve steps >>= fun found => found.elim (pure none) (·.access key)) ∧
    ∀ {source : String} {p : Program} {path : Path}, parse source = .ok p → HasPath p path →
      ∀ (t : Template) (cs : Contexts), t.HasBuiltin cs "lookup" →
      ∀ (f : String → Value → Render String) (n : Nat) (word longer : String) (escaped : Bool),
        let r := t.rendererIn f n
        let call := (r.statement s
          (.tag (.path ⟨[.field "lookup"], word⟩) ⟨[.path path, .string key], {}⟩ escaped)).run cs
        let direct := (r.statement s
          (.tag (.path ⟨path.steps ++ [.field key], longer⟩) {} escaped)).run cs
        let reading := s.resolve (path.steps ++ [.field key])
        (∃ questions, (∀ event ∈ questions, event.IsQuestion) ∧
          call = { direct with events := questions ++ direct.events }) ∧
        (∀ e, reading.result = .error e →
          direct = ⟨.error (.hostAccess e), cs, reading.reads.map .read⟩) ∧
        ∀ found, reading.result = .ok found → ∃ text questions,
          (t.shown escaped (found.elim "" Value.text)).run cs = ⟨.ok text, cs, questions⟩ ∧
          (∀ event ∈ questions, event.IsQuestion) ∧
          direct = ⟨.ok text, cs, reading.reads.map .read ++ questions⟩ := by
  refine ⟨fun steps => s.resolve_concat steps key, ?_⟩
  intro source p path hp hpath t cs hlookup f n word longer escaped r call direct reading
  have hne : path.steps ≠ [] := (HasPath.normal hp hpath).nonempty
  have hdirect : direct = (Render.reading reading >>= fun found =>
      t.shown escaped (found.elim "" Value.text)).run cs :=
    t.run_path f n s (Path.helperName?_concat hne key longer) escaped
  have hread : (Render.reading reading).run cs =
      ⟨reading.result.mapError .hostAccess, cs, reading.reads.map .read⟩ := rfl
  refine ⟨⟨_, Template.isQuestion_of_mem_headQuestions,
    t.run_lookup_path f n s hlookup hne key word longer escaped⟩, fun e he => ?_,
    fun found hfound => ?_⟩
  · rw [he] at hread
    rw [hdirect, Render.run_bind_of_error (by rw [hread]; rfl), hread]
  · rw [hfound] at hread
    obtain ⟨text, events, hshown⟩ := t.run_shown cs escaped (found.elim "" Value.text)
    have hquestions := t.isQuestion_of_mem_shown cs escaped (found.elim "" Value.text)
    rw [hshown] at hquestions
    refine ⟨text, events, hshown, hquestions, ?_⟩
    rw [hdirect, Render.run_bind_of_run hread, hshown]

/-- A field of a host object that is read, and one that cannot be. -/
theorem lookup_is_path_access_field :
    let fault : HostAccessError := ⟨"Row", "bad", "gone"⟩
    let host : Host Value :=
      { identity := 0, typeName := "Row", fieldNames := ["bad", "k"]
        readField := fun key => if key = "k" then .ok (some (.string "<")) else .error fault }
    let s := Scope.root (.object [("row", .host host)])
    let r := Template.rendererIn { source := "", own := .global } (Template.standAlone 0) 0
    let row : Path := ⟨[.field "row"], "row"⟩
    let look (key : String) := (r.statement s
      (.tag (.path ⟨[.field "lookup"], "lookup"⟩) ⟨[.path row, .string key], {}⟩ true)).run .empty
    parse "\x7b\x7brow\x7d\x7d" = .ok [.tag (.path row) {} true] ∧
      s.resolve [.field "row", .field "k"] = ⟨[⟨host, "k"⟩], .ok (some (.string "<"))⟩ ∧
      (look "k").result = .ok "&lt;" ∧ (look "bad").result = .error (.hostAccess fault) := by
  intro fault host s r row look
  have hrow : ReadsWord (.path row) ['r', 'o', 'w'] :=
    readsWord_field (by decide) (List.all_eq_true.mp (by decide))
      (fun _ => numeral?_eq_none (by decide) (by decide) _) (by decide)
  have hp : parse "\x7b\x7brow\x7d\x7d" = .ok [.tag (.path row) {} true] :=
    parse_plainTag (plainTag_words hrow (by rintro _ ⟨⟩; decide) .nil)
  have hpath : HasPath [.tag (.path row) {} true] row := ⟨_, 0, .here, .inl (.head _)⟩
  let t : Template := { source := "", own := .global }
  obtain ⟨hconcat, hread⟩ := lookup_is_path_access s "k"
  obtain ⟨-, hfails⟩ := lookup_is_path_access s "bad"
  refine ⟨hp, hconcat [.field "row"], ?_, ?_⟩
  · obtain ⟨⟨questions, -, hcall⟩, -, hshows⟩ :=
      hread hp hpath t .empty rfl (Template.standAlone 0) 0 "lookup" "row.k" true
    obtain ⟨text, _, hshown, -, hdirect⟩ := hshows _ rfl
    rw [hdirect] at hcall
    have htext : ((t.shown true "<").run .empty).result = .ok "&lt;" := rfl
    rw [← htext]
    exact (congrArg Outcome.result hcall).trans (congrArg Outcome.result hshown).symm
  · obtain ⟨⟨questions, -, hcall⟩, hfault, -⟩ :=
      hfails hp hpath t .empty rfl (Template.standAlone 0) 0 "lookup" "row.bad" true
    rw [hfault fault rfl] at hcall
    exact congrArg Outcome.result hcall

end Stencil
