import Stencil.Error.Json
import Stencil.Proofs.Session.Observers
import Stencil.Proofs.Words

/-!
JSON forms. Errors, options and templates read back from what they are written as. A template is
compiled anew when it is read, so that one whose text does not parse cannot be read at all.
-/
namespace Stencil

/-- What is written by `write` is read back by `read`. -/
def Json.ReadsBack {α : Type} (write : α → Json) (read : Json → Option α) : Prop :=
  ∀ a, read (write a) = some a

/-- Nothing else is written as what reads back. -/
theorem Json.ReadsBack.injective {α : Type} {write : α → Json} {read : Json → Option α}
    (h : ReadsBack write read) : Function.Injective write := by
  intro a b hab
  have hread := h a
  rw [hab, h b] at hread
  exact (Option.some.inj hread).symm

/-! Errors. -/

theorem ParseFailure.readsBack : Json.ReadsBack toJson ofJson? := by
  intro kind
  cases kind with
  | unexpectedToken wanted found => simp [toJson, ofJson?, Json.stringAt?, List.lookup_cons]
  | mismatchedClose opened closed => simp [toJson, ofJson?, Json.stringAt?, List.lookup_cons]
  | unexpectedEnd _ | invalidIdentifier _ | expected _ =>
    simp [toJson, ofJson?, Json.stringAt?]
  | nestingTooDeep limit => simp [toJson, ofJson?, Json.natAt?]
  | message text => simp [toJson, ofJson?]

theorem ParseError.readsBack : Json.ReadsBack toJson ofJson? := by
  intro e
  have hkind := ParseFailure.readsBack e.kind
  simp [toJson, ofJson?, Json.record?, List.lookup_cons, hkind]

theorem HostAccessError.readsBack : Json.ReadsBack toJson ofJson? := by
  intro e
  simp [toJson, ofJson?, Json.record?, List.lookup_cons]

theorem RenderError.readsBack : Json.ReadsBack toJson ofJson? := by
  intro e
  cases e with
  | parse e => simp [toJson, ofJson?, tag, content, ParseError.readsBack e]
  | hostAccess e => simp [toJson, ofJson?, tag, content, HostAccessError.readsBack e]
  | invalidPartial name e =>
    simp [toJson, ofJson?, tag, content, Json.stringAt?, List.lookup_cons, ParseError.readsBack e]
  | missingHelper _ | missingPartial _ | helper _ _ =>
    simp [toJson, ofJson?, tag, content, Json.stringAt?, List.lookup_cons]
  | recursionLimit name limit =>
    simp [toJson, ofJson?, tag, content, Json.stringAt?, Json.natAt?, List.lookup_cons]

/-- Errors of every kind read back from their JSON forms, so no two of them are written alike. The
form of a partial that does not parse holds that of the whole error in its text, from which the
reason can be read as well. -/
theorem errors_read_back :
    Json.ReadsBack RenderError.toJson RenderError.ofJson? ∧
    Json.ReadsBack ParseError.toJson ParseError.ofJson? ∧
    Json.ReadsBack ParseFailure.toJson ParseFailure.ofJson? ∧
    Json.ReadsBack HostAccessError.toJson HostAccessError.ofJson? ∧
    (Function.Injective RenderError.toJson ∧ Function.Injective ParseError.toJson ∧
      Function.Injective ParseFailure.toJson ∧ Function.Injective HostAccessError.toJson) ∧
    ∀ name e, ∃ source kind,
      ((RenderError.invalidPartial name e).toJson.at? "InvalidPartial").bind (·.at? "source") =
        some source ∧ ParseError.ofJson? source = some e ∧
      source.at? "kind" = some kind ∧ ParseFailure.ofJson? kind = some e.kind := by
  refine ⟨RenderError.readsBack, ParseError.readsBack, ParseFailure.readsBack,
    HostAccessError.readsBack, ⟨RenderError.readsBack.injective, ParseError.readsBack.injective,
      ParseFailure.readsBack.injective, HostAccessError.readsBack.injective⟩, fun name e => ?_⟩
  refine ⟨e.toJson, e.kind.toJson, ?_, ParseError.readsBack e, ?_, ParseFailure.readsBack e.kind⟩
  · simp [RenderError.toJson, RenderError.tag, RenderError.content, List.lookup_cons]
  · simp [ParseError.toJson, List.lookup_cons]

/-! Options. -/

theorem RenderOptions.readsBack : Json.ReadsBack toJson ofJson? := by
  intro o
  simp [toJson, ofJson?, fieldOr, List.lookup_cons]

/-- Options that an object leaves out have their usual values. -/
theorem RenderOptions.ofJson?_object {entries : List (String × Json)} {format? : Option String}
    {limit? : Option Nat} (hformat : entries.lookup "target_format" = format?.map .string)
    (hlimit : entries.lookup "max_partial_depth" = limit?.map fun n => .int n) :
    ofJson? (.object entries) =
      some ⟨format?.getD defaultTargetFormat, limit?.getD defaultPartialLimit⟩ := by
  have hread {α : Type} (usual : α) {read : Json → Option α} {write : α → Json}
      (h : Json.ReadsBack write read) (a? : Option α) :
      fieldOr usual read (a?.map write) = some (a?.getD usual) := by
    cases a? with
    | none => rfl
    | some a => exact h a
  simp [ofJson?, hformat, hlimit, hread _ Json.asString?_string, hread _ Json.asNat?_natCast]

/-! Templates. -/

/-- An object gives a template some of the options, or no options at all. -/
inductive GivesOptions (entries : List (String × Json)) : Option String → Option Nat → Prop
  | missing : entries.lookup "options" = none → GivesOptions entries none none
  | object {fields format? limit?} : entries.lookup "options" = some (.object fields) →
      fields.lookup "target_format" = Option.map Json.string format? →
      fields.lookup "max_partial_depth" = Option.map (fun n : Nat => .int n) limit? →
      GivesOptions entries format? limit?

theorem templateFields?_object {entries : List (String × Json)} {source : String}
    {format? : Option String} {limit? : Option Nat}
    (hsource : entries.lookup "source" = some (.string source))
    (hoptions : GivesOptions entries format? limit?) :
    templateFields? (.object entries) =
      some (source, ⟨format?.getD defaultTargetFormat, limit?.getD defaultPartialLimit⟩) := by
  cases hoptions with
  | missing hmissing =>
    simp [templateFields?, hsource, hmissing, RenderOptions.fieldOr]
  | object hfields hformat hlimit =>
    simp [templateFields?, hsource, hfields, RenderOptions.fieldOr,
      RenderOptions.ofJson?_object hformat hlimit]

theorem Template.ofJson_of_fields {document : Json} {source : String} {options : RenderOptions}
    (h : templateFields? document = some (source, options)) (own : ContextId) :
    ofJson document own =
      match parse source with
      | .ok _ => .ok { source, options, own }
      | .error e => .error (.parse e) := by
  simp only [ofJson, h]
  cases parse source with
  | ok p => rfl
  | error e => rfl

theorem Template.templateFields?_toJson (t : Template) :
    templateFields? t.toJson = some (t.source, t.options) := by
  simp [toJson, templateFields?, RenderOptions.fieldOr, List.lookup_cons,
    RenderOptions.readsBack t.options]

namespace Session

variable (s : Session) {s' : Session}

theorem compile_compile (i : TemplateId) : (s.compile i).compile i = s.compile i := by
  simp only [compile, List.modify_modify_eq]
  rfl

theorem SameButCompiled.runAll {s : Session} (h : s.SameButCompiled s')
    (operations : List Operation) :
    (s.runAll operations).2.map Reply.settled = (s'.runAll operations).2.map Reply.settled := by
  induction operations generalizing s s' with
  | nil => rfl
  | cons operation rest ih =>
    obtain ⟨hsame, hreply⟩ := h.step operation
    exact congrArg₂ List.cons hreply (ih hsame)

/-- A template that is made can be compiled at once. -/
theorem addTemplate_compile (x : TemplateState) :
    s.addTemplate x.compile =
      ((s.addTemplate x).1.compile s.templates.length, (s.addTemplate x).2) := by
  have hlast : (s.templates ++ [x]).modify s.templates.length TemplateState.compile =
      s.templates ++ [x.compile] :=
    List.modifyTailIdx_add (List.modifyHead TemplateState.compile) 0 s.templates [x]
  simp only [addTemplate, compile, hlast]

/-- A template that is loaded is one that is made and compiled. -/
theorem step_loadTemplate {document : Json} {source : String} {options : RenderOptions}
    (h : templateFields? document = some (source, options)) :
    s.step (.loadTemplate document) =
      let making := s.step (.makeTemplate source none options)
      match parse source with
      | .ok _ => (making.1.compile s.templates.length, making.2)
      | .error e => (s, ⟨.refused (.parse e), []⟩) := by
  simp only [step, Template.ofJson_of_fields h]
  cases parse source with
  | ok p => exact s.addTemplate_compile _
  | error e => rfl

/-- Rendering compiles a template where that was not done before. -/
theorem step_render_compile (i : TemplateId) (v : Value) :
    (s.compile i).step (.onTemplate i (.render v)) = s.step (.onTemplate i (.render v)) := by
  have hget : (s.compile i).templates[i]? = s.templates[i]?.map TemplateState.compile :=
    List.getElem?_modify_eq _ i s.templates
  rw [step, step, onTemplate, onTemplate, hget]
  cases hx : s.templates[i]? with
  | none =>
    have hsame : s.templates.modify i TemplateState.compile = s.templates :=
      List.modify_eq_self (List.getElem?_eq_none_iff.mp hx)
    simp only [Option.map_none, compile, hsame]
  | some x =>
    simp only [Option.map_some, s.compile_compile]
    rfl

/-- A template that is loaded is compiled, and has an empty context of its own and no shared one. -/
theorem exists_loaded {document : Json} {source : String} {options : RenderOptions}
    (h : templateFields? document = some (source, options)) {p : Program}
    (hp : parse source = .ok p) :
    ∃ y, (s.step (.loadTemplate document)).1.templates = s.templates ++ [y] ∧
      y.template = { source, options, own := s.nextContext } ∧ y.compiled? = some (.ok p) ∧
      s.has y.template.own = false ∧
      (s.step (.loadTemplate document)).1.contexts.get y.template.own = {} := by
  let y := TemplateState.fresh { source, options, own := s.nextContext }
  have hloading : s.step (.loadTemplate document) = s.addTemplate y.compile := by
    rw [step_loadTemplate s h, hp]
    exact (s.addTemplate_compile y).symm
  refine ⟨y.compile, ?_, rfl, congrArg some hp, s.has_nextContext, ?_⟩
  · rw [hloading]
    rfl
  · rw [hloading]
    exact if_pos rfl

end Session

/-- A template reads back from its JSON form as one of the same text and options.
* It reads back just if its text parses, and what is held in contexts and whether it was compiled
  make no difference. Else nothing changes, and the error is that of the text.
* It is compiled then, has an empty context of its own that was not there before, shares none, and
  is written as before.
* It renders as a template that is made of the same text and options, and whatever is done in the
  session is answered alike with either, but for whether the template was compiled.
* Options that a document leaves out have their usual values, those that it gives are kept, and
  options read back. -/
theorem templates_read_back :
    (∀ (s : Session) (x : TemplateState),
      let t := x.template
      let loading := s.step (.loadTemplate t.toJson)
      let making := s.step (.makeTemplate t.source none t.options)
      ((∃ i, loading.2.answer = .template i) ↔ ∃ p, parse t.source = .ok p) ∧
      (∀ e, parse t.source = .error e → loading = (s, ⟨.refused (.parse e), []⟩)) ∧
      ∀ p, parse t.source = .ok p →
        loading.2 = ⟨.template s.templates.length, []⟩ ∧ making.2 = loading.2 ∧
        (∃ y, loading.1.templates = s.templates ++ [y] ∧
          (y.template.source = t.source ∧ y.template.options = t.options) ∧
          y.compiled? = some (.ok p) ∧ y.template.shared = none ∧
          (s.has y.template.own = false ∧ loading.1.contexts.get y.template.own = {}) ∧
          y.template.toJson = t.toJson) ∧
        (∀ v, loading.1.step (.onTemplate s.templates.length (.render v)) =
          making.1.step (.onTemplate s.templates.length (.render v))) ∧
        ∀ operations, (loading.1.runAll operations).2.map Reply.settled =
          (making.1.runAll operations).2.map Reply.settled) ∧
    (∀ entries source format? limit?, entries.lookup "source" = some (.string source) →
      GivesOptions entries format? limit? → ∀ own, Template.ofJson (.object entries) own =
        match parse source with
        | .ok _ => .ok ⟨source, ⟨format?.getD "text/html", limit?.getD 64⟩, own, none⟩
        | .error e => .error (.parse e)) ∧
    Json.ReadsBack RenderOptions.toJson RenderOptions.ofJson? := by
  refine ⟨fun s x => ?_, fun entries source format? limit? hsource hoptions own =>
    Template.ofJson_of_fields (templateFields?_object hsource hoptions) own,
    RenderOptions.readsBack⟩
  intro t loading making
  have hfields := t.templateFields?_toJson
  have hloading := s.step_loadTemplate hfields
  refine ⟨⟨?_, ?_⟩, fun e he => ?_, fun p hp => ?_⟩
  · rintro ⟨i, hi⟩
    cases hparse : parse t.source with
    | ok p => exact ⟨p, rfl⟩
    | error e =>
      simp only [loading, hloading, hparse] at hi
      cases hi
  · rintro ⟨p, hp⟩
    exact ⟨s.templates.length, by simp only [loading, hloading, hp]; rfl⟩
  · simp only [loading, hloading, he]
  · have hsame : loading = (making.1.compile s.templates.length, making.2) := by
      simp only [loading, hloading, hp, making]
    have hreply : making.2 = ⟨.template s.templates.length, []⟩ := rfl
    obtain ⟨y, htemplates, hy, hcompiled, hnew, hempty⟩ := s.exists_loaded hfields hp
    refine ⟨by rw [hsame, hreply], by rw [hsame], ⟨y, htemplates, ?_, hcompiled, ?_,
      ⟨hnew, hempty⟩, ?_⟩, fun v => ?_, fun operations => ?_⟩
    · rw [hy]
      exact ⟨rfl, rfl⟩
    · rw [hy]
    · rw [hy]
      rfl
    · rw [hsame]
      exact making.1.step_render_compile s.templates.length v
    · have halike : (making.1.compile s.templates.length).SameButCompiled making.1 :=
        ⟨rfl, rfl, making.1.sources_compile _⟩
      rw [hsame]
      exact halike.runAll operations

/-- A template that is written and read back, a text that does not parse, and a document that gives
one of the options. -/
theorem templates_read_back_row :
    let written : TemplateState := .fresh
      { source := "\x7b\x7brow\x7d\x7d", options := { partialLimit := 8 }, own := .made 3,
        shared := some .global }
    let broken : TemplateState := .fresh { source := "\x7b\x7b", own := .global }
    let s : Session := {}
    let loaded := s.step (.loadTemplate written.template.toJson)
    let refused := s.step (.loadTemplate broken.template.toJson)
    let entries := [("options", .object [("max_partial_depth", .int 3)]),
      ("source", .string "\x7b\x7brow\x7d\x7d")]
    loaded.2.answer = .template 0 ∧
      (∃ y, loaded.1.templates = [y] ∧ y.template.options = { partialLimit := 8 } ∧
        y.template.shared = none) ∧
      (∃ e, parse "\x7b\x7b" = .error e ∧ refused = (s, ⟨.refused (.parse e), []⟩)) ∧
      GivesOptions entries none (some 3) ∧
      Template.ofJson (.object entries) .global = .ok
        { source := "\x7b\x7brow\x7d\x7d", options := { partialLimit := 3 }, own := .global } := by
  intro written broken s loaded refused entries
  have hrow : ReadsWord (.path ⟨[.field "row"], "row"⟩) ['r', 'o', 'w'] :=
    readsWord_field (by decide) (List.all_eq_true.mp (by decide))
      (fun _ => numeral?_eq_none (by decide) (by decide) _) (by decide)
  have hp : parse "\x7b\x7brow\x7d\x7d" = .ok [.tag (.path ⟨[.field "row"], "row"⟩) {} true] :=
    parse_plainTag (plainTag_words hrow (by rintro _ ⟨⟩; decide) .nil)
  obtain ⟨e, he⟩ := Written.parse_open
  have hgives : GivesOptions entries none (some 3) := .object rfl rfl rfl
  obtain ⟨htemplates, hdocuments, -⟩ := templates_read_back
  obtain ⟨-, -, hloaded⟩ := htemplates s written
  obtain ⟨-, hrefused, -⟩ := htemplates s broken
  obtain ⟨hreply, -, ⟨y, hy, ⟨-, hoptions⟩, -, hshared, -⟩, -⟩ := hloaded _ hp
  refine ⟨congrArg Reply.answer hreply, ⟨y, hy, hoptions, hshared⟩, ⟨e, he, hrefused e he⟩, hgives,
    ?_⟩
  rw [hdocuments entries _ _ _ rfl hgives, hp]
  rfl

end Stencil
