import Stencil.Proofs.Alike.Builtin

/-!
Programs compared. A program renders alike in scopes that are alike, if every statement that it
reaches fits the depth at which it stands and names only helpers of every template.
-/
namespace Stencil

/-- Induction over a program: the sections of its blocks are programs of their own. -/
theorem Program.induct {motive : Program → Prop} (nil : motive [])
    (cons : ∀ s rest, (∀ path arguments main inverse, s = .block path arguments main inverse →
      motive main ∧ motive inverse) → motive rest → motive (s :: rest)) :
    (p : Program) → motive p
  | [] => nil
  | s :: rest =>
    cons s rest (fun _ _ main inverse h => by
      subst h
      exact ⟨induct nil cons main, induct nil cons inverse⟩) (induct nil cons rest)

/-- Two renderings, and their texts one after the other. -/
def Render.append (m n : Render String) : Render String := do
  let a ← m
  let b ← n
  return a ++ b

theorem Render.empty_append (m : Render String) : (pure "" : Render String).append m = m := by
  simp only [Render.append, pure_bind, String.empty_append, bind_pure]

theorem Render.append_assoc (m n k : Render String) :
    (m.append n).append k = m.append (n.append k) := by
  simp only [Render.append, bind_assoc, pure_bind, String.append_assoc]

theorem Render.Alike.append {waived : RenderError → Prop} {cs ds : Contexts}
    {T : String → String → Prop} (hT : TextRelation T) {m n m' n' : Render String}
    (h : Alike waived cs ds T m n) (h' : Alike waived cs ds T m' n') :
    Alike waived cs ds T (m.append m') (n.append n') :=
  h.bind fun _ _ hab => h'.bind fun _ _ hcd => .pure (hT.append hab hcd)

theorem Renderer.program_cons (r : Renderer) (scope : Scope) (s : Statement) (p : Program) :
    r.program scope (s :: p) = (r.statement scope s).append (r.program scope p) := by
  rw [program]
  rfl

theorem Renderer.program_append (r : Renderer) (scope : Scope) (p q : Program) :
    r.program scope (p ++ q) = (r.program scope p).append (r.program scope q) := by
  induction p with
  | nil => rw [List.nil_append, program, Render.empty_append]
  | cons s p ih => rw [List.cons_append, program_cons, ih, program_cons, Render.append_assoc]

/-! The text of a template counts only where it is parsed, and its limit of partials only where no
more of them may be entered. -/

/-- Two templates that resolve names in the same contexts and escape for the same format. -/
structure Template.SameLookup (t t' : Template) : Prop where
  own : t.own = t'.own
  shared : t.shared = t'.shared
  format : t.options.targetFormat = t'.options.targetFormat

section SameLookup
variable {t t' : Template} (h : t.SameLookup t') (f : String → Value → Render String)
include h

theorem Template.SameLookup.chain : t.chain = t'.chain := by
  rw [Template.chain, Template.chain, h.own, h.shared]

theorem Template.SameLookup.helper? : t.helper? = t'.helper? := by
  funext name
  rw [Template.helper?, Template.helper?, h.chain]

theorem Template.SameLookup.partial? : t.partial? = t'.partial? := by
  funext name
  rw [Template.partial?, Template.partial?, h.chain]

theorem Template.SameLookup.localize : t.localize = t'.localize := by
  funext text
  rw [Template.localize, Template.localize, h.chain]

theorem Template.SameLookup.escape : t.escape = t'.escape := by
  funext raw
  rw [Template.escape, Template.escape, h.chain, h.format]

theorem Action.perform_congr (inSection : Section → Value → PrivateData → Render String)
    (action : Action) :
    action.perform ⟨t, inSection, f⟩ = action.perform ⟨t', inSection, f⟩ := by
  induction action with
  | done outcome => rfl
  | render which context data resume ih => simp only [perform, ih]
  | access target key resume ih => simp only [perform, ih]
  | localize text resume ih => simp only [perform, ih, h.localize]
  | escape raw resume ih => simp only [perform, ih, h.escape]
  | note event next ih => simp only [perform, ih]
  | definePartial name text resume ih => simp only [perform, ih, h.own]
  | defineHelper name helper next _ ih => simp only [perform, ih, h.own]
  | renderText text context resume ih => simp only [perform, ih]

variable {enter : Option (Program → Scope → Render String)}

theorem Renderer.headHelper?_congr (path? : Option Path) :
    Renderer.headHelper? ⟨t, f, enter⟩ path? = Renderer.headHelper? ⟨t', f, enter⟩ path? := by
  simp only [headHelper?, h.helper?]

theorem Renderer.invoke_congr (scope : Scope) (name : String) (helper : Helper) (kind : CallKind)
    (arguments : Arguments) (mainEmpty inverseEmpty : Bool)
    (inSection : Section → Value → PrivateData → Render String) :
    Renderer.invoke ⟨t, f, enter⟩ scope name helper kind arguments mainEmpty inverseEmpty
        inSection =
      Renderer.invoke ⟨t', f, enter⟩ scope name helper kind arguments mainEmpty inverseEmpty
        inSection := by
  simp only [invoke, Action.perform_congr h]

theorem Renderer.tag_congr (scope : Scope) (head : Expression) (arguments : Arguments)
    (escaped : Bool) :
    Renderer.tag ⟨t, f, enter⟩ scope head arguments escaped =
      Renderer.tag ⟨t', f, enter⟩ scope head arguments escaped := by
  simp only [tag, tagText, headHelper?_congr h, invoke_congr h, h.escape]

theorem Renderer.insertion_congr
    (hlimit : enter = none → t.options.partialLimit = t'.options.partialLimit) (scope : Scope)
    (name : String) (context : Option Expression) (named : NamedParams) :
    Renderer.insertion ⟨t, f, enter⟩ scope name context named =
      Renderer.insertion ⟨t', f, enter⟩ scope name context named := by
  cases enter with
  | none => simp only [insertion, h.partial?, hlimit rfl]
  | some enter => simp only [insertion, h.partial?]

theorem Renderer.program_congr
    (hlimit : enter = none → t.options.partialLimit = t'.options.partialLimit) (scope : Scope)
    (p : Program) :
    Renderer.program ⟨t, f, enter⟩ scope p = Renderer.program ⟨t', f, enter⟩ scope p := by
  induction p using Program.induct generalizing scope with
  | nil => rw [program, program]
  | cons s rest ihs ihrest =>
    rw [program_cons, program_cons, ihrest]
    congr 1
    cases s with
    | raw text => rw [statement, statement]
    | comment text => rw [statement, statement]
    | tag head arguments escaped => rw [statement, statement, tag_congr h]
    | insertion name context named => rw [statement, statement, insertion_congr h f hlimit]
    | block path arguments main inverse =>
      obtain ⟨ihmain, ihinverse⟩ := ihs path arguments main inverse rfl
      rw [statement, statement]
      simp only [headHelper?_congr h, invoke_congr h, ihmain, ihinverse]

end SameLookup

/-- The texts that a statement itself can show: those of its sections and bodies are others. -/
inductive Statement.Shows (t : Template) (cs : Contexts) : Statement → String → Prop
  | raw (x) : Shows t cs (.raw x) x
  | escaped {head arguments x y} : ((t.escape x).run cs).result = .ok y →
      Shows t cs (.tag head arguments true) y
  | plain {head arguments} (x) : Shows t cs (.tag head arguments false) x
  | called {path arguments main inverse name helper} (x) : path.helperName? = some name →
      ((t.helper? name).run cs).result = .ok (some helper) →
      (∀ b ∈ sectionHelpers, builtin? b ≠ some helper) →
      Shows t cs (.block path arguments main inverse) x

/-- A name that stands for one helper in two contexts: one that every template can call, perhaps
under another name, or none. -/
structure Template.SharesBuiltin (t : Template) (cs ds : Contexts) (name : String) : Prop where
  same : ((t.helper? name).run cs).result = ((t.helper? name).run ds).result
  isBuiltin : ∀ helper, ((t.helper? name).run cs).result = .ok (some helper) →
    ∃ b, builtin? b = some helper

/-- A statement that renders alike in contexts `cs` and `ds` where scopes are alike `k` steps out:
it calls helpers of every template, inserts one partial, names private data of `N`, and `T` relates
what it shows to itself. -/
structure Fits (t : Template) (cs ds : Contexts) (N : String → Prop) (T : String → String → Prop)
    (k : ℕ∞) (s : Statement) : Prop where
  helper : ∀ name ∈ s.helperName?, t.SharesBuiltin cs ds name
  inserted : ∀ name context named, s = .insertion name context named →
    ((t.partial? name).run cs).result = ((t.partial? name).run ds).result
  within : ∀ e ∈ s.expressions, e.Within N k
  shown : ∀ x, s.Shows t cs x → T x x

/-- A template that localizes and escapes alike in two contexts. -/
structure TextsAlike (t : Template) (cs ds : Contexts) : Prop where
  localize (x : String) : ((t.localize x).run cs).result = ((t.localize x).run ds).result
  escape (x : String) : ((t.escape x).run cs).result = ((t.escape x).run ds).result

namespace Render

variable {α : Type} {waived : RenderError → Prop} {cs ds : Contexts}

/-- A rendering that keeps the contexts and has one result in both is alike with itself. -/
theorem Alike.same {m : Render α} (h : ∀ ks, m.Keeps ks)
    (hr : (m.run cs).result = (m.run ds).result) :
    Alike waived cs ds (fun a b => a = b ∧ (m.run cs).result = .ok a) m m := by
  refine .of_keeps (h cs) (h ds) ?_
  rw [← hr]
  cases (m.run cs).result with
  | ok a => exact .ok ⟨rfl, rfl⟩
  | error e => exact .error e

end Render

section
variable {waived : RenderError → Prop} {cs ds : Contexts} {V : Value → Value → Prop}
  {N : String → Prop} {T : String → String → Prop} {k : ℕ∞} {scope scope' : Scope}
  {t : Template} {f f' : String → Value → Render String}
  {enter enter' : Option (Program → Scope → Render String)}

/-- The helper that a head names is one of every template. -/
theorem alike_headHelper? (path? : Option Path)
    (h : ∀ name ∈ path?.bind Path.helperName?, t.SharesBuiltin cs ds name) :
    Render.Alike waived cs ds
      (fun a b => a = b ∧ ∀ name helper, a = some (name, helper) →
        path?.bind Path.helperName? = some name ∧
          ((t.helper? name).run cs).result = .ok (some helper))
      (Renderer.headHelper? ⟨t, f, enter⟩ path?) (Renderer.headHelper? ⟨t, f', enter'⟩ path?) := by
  unfold Renderer.headHelper?
  cases hname : path?.bind Path.helperName? with
  | none => exact .pure ⟨rfl, nofun⟩
  | some name =>
    refine (Render.Alike.same (fun _ => t.keeps_helper? name) (h name hname).same).bind
      fun found found' hfound => .pure ?_
    obtain ⟨rfl, hfound⟩ := hfound
    refine ⟨rfl, fun name' helper hsome => ?_⟩
    obtain ⟨rfl, rfl⟩ : name = name' ∧ found = some helper := by
      simpa [and_comm, eq_comm] using hsome
    exact ⟨rfl, hfound⟩

section Calls
variable (hV : Value.Indistinct V) (hs : ScopeAlike V N k scope scope')
  (htexts : TextsAlike t cs ds)
include hV hs htexts

/-- A call of a helper of every template. No such helper asks which sections are empty. -/
theorem alike_invoke (hT : TextRelation T) {name b : String} {helper : Helper}
    (hh : builtin? b = some helper) (hshown : b ∈ sectionHelpers ∨ ∀ x, T x x)
    {arguments : Arguments} (hargs : ∀ e ∈ arguments.expressions, e.Within N k) (kind : CallKind)
    {mainEmpty mainEmpty' inverseEmpty inverseEmpty' : Bool}
    {inSection inSection' : Section → Value → PrivateData → Render String}
    (hsection : ∀ which v w d d', V v w → DataAlike V N d d' →
      Render.Alike waived cs ds T (inSection which v d) (inSection' which w d')) :
    Render.Alike waived cs ds T
      (Renderer.invoke ⟨t, f, enter⟩ scope name helper kind arguments mainEmpty inverseEmpty
        inSection)
      (Renderer.invoke ⟨t, f', enter'⟩ scope' name helper kind arguments mainEmpty' inverseEmpty'
        inSection') := by
  have hpositional : ∀ e ∈ arguments.positional, e.Within N k :=
    fun e he => hargs e (List.mem_append_left _ he)
  have hnamed : ∀ e ∈ arguments.named.entries.map (·.2), e.Within N k :=
    fun e he => hargs e (List.mem_append_right _ he)
  apply (Render.alike_evaluateAll hV hs hpositional).bind
  intro params params' hparams
  apply (Render.alike_evaluateNamed hV hs hnamed).bind
  intro named named' hnamed
  have hmeans : MeansAlike waived cs ds V N T ⟨t, inSection, f⟩ ⟨t, inSection', f'⟩ :=
    ⟨rfl, fun which hv hd => hsection which _ _ _ _ hv hd⟩
  refine alike_builtin hV hT hmeans ?_ hh hshown htexts.localize
  exact ⟨rfl, hs.level.value, hs.level.data, hparams, hnamed⟩

/-- The text of a tag is the same. -/
theorem alike_tagText {head : Expression} {arguments : Arguments} {escaped : Bool}
    (hfits : Fits t cs ds N T k (.tag head arguments escaped)) :
    Render.Alike waived cs ds (· = ·) (Renderer.tagText ⟨t, f, enter⟩ scope head arguments)
      (Renderer.tagText ⟨t, f', enter'⟩ scope' head arguments) := by
  apply (alike_headHelper? head.asPath? hfits.helper).bind
  intro found found' hfound
  obtain ⟨rfl, hfound⟩ := hfound
  cases found with
  | some entry =>
    obtain ⟨name, helper⟩ := entry
    obtain ⟨hname, hhelper⟩ := hfound name helper rfl
    obtain ⟨b, hb⟩ := (hfits.helper name hname).isBuiltin helper hhelper
    exact alike_invoke hV hs htexts .eq hb (.inr fun _ => rfl)
      (fun e he => hfits.within e (.tail _ he)) _ fun _ _ _ _ _ _ _ => .pure rfl
  | none =>
    dsimp only
    split
    · apply (Render.alike_evaluate? hV hs (hfits.within head (.head _))).bind
      intro a b hab
      cases hab with
      | none => exact .pure rfl
      | some hv => exact .pure (hV.text hv)
    · exact .fail _

theorem alike_tag {head : Expression} {arguments : Arguments} {escaped : Bool}
    (hfits : Fits t cs ds N T k (.tag head arguments escaped)) :
    Render.Alike waived cs ds T (Renderer.tag ⟨t, f, enter⟩ scope head arguments escaped)
      (Renderer.tag ⟨t, f', enter'⟩ scope' head arguments escaped) := by
  apply (alike_tagText hV hs htexts hfits).bind
  intro x y hxy
  subst hxy
  cases escaped with
  | true =>
    apply (Render.Alike.same (fun _ => t.keeps_escape x) (htexts.escape x)).mono
    rintro a _ ⟨rfl, ha⟩
    exact hfits.shown a (.escaped ha)
  | false => exact .pure (hfits.shown x (.plain x))

/-- A block whose sections are alike, in scopes that are alike one step further out. -/
theorem alike_block (hT : TextRelation T) {path : Path} {arguments : Arguments}
    {main main' inverse inverse' : Program}
    (hfits : Fits t cs ds N T k (.block path arguments main inverse))
    (hmain : ∀ s s', ScopeAlike V N (k + 1) s s' →
      Render.Alike waived cs ds T (Renderer.program ⟨t, f, enter⟩ s main)
        (Renderer.program ⟨t, f', enter'⟩ s' main'))
    (hinverse : ∀ s s', ScopeAlike V N (k + 1) s s' →
      Render.Alike waived cs ds T (Renderer.program ⟨t, f, enter⟩ s inverse)
        (Renderer.program ⟨t, f', enter'⟩ s' inverse')) :
    Render.Alike waived cs ds T
      (Renderer.statement ⟨t, f, enter⟩ scope (.block path arguments main inverse))
      (Renderer.statement ⟨t, f', enter'⟩ scope' (.block path arguments main' inverse')) := by
  rw [Renderer.statement, Renderer.statement]
  apply (alike_headHelper? (some path) hfits.helper).bind
  intro found found' hfound
  obtain ⟨rfl, hfound⟩ := hfound
  cases found with
  | none => exact .fail _
  | some entry =>
    obtain ⟨name, helper⟩ := entry
    obtain ⟨hname, hhelper⟩ := hfound name helper rfl
    obtain ⟨b, hb, hshown⟩ : ∃ b, builtin? b = some helper ∧
        (b ∈ sectionHelpers ∨ ∀ x, T x x) := by
      by_cases hsection : ∃ b ∈ sectionHelpers, builtin? b = some helper
      · obtain ⟨b, hmem, hb⟩ := hsection
        exact ⟨b, hb, .inl hmem⟩
      · obtain ⟨b, hb⟩ := (hfits.helper name hname).isBuiltin helper hhelper
        simp only [not_exists, not_and] at hsection
        exact ⟨b, hb, .inr fun x => hfits.shown x (.called x hname hhelper hsection)⟩
    apply alike_invoke hV hs htexts hT hb hshown hfits.within
    intro which v w d d' hv hd
    cases which with
    | main => exact hmain _ _ (hs.child hv hd)
    | inverse => exact hinverse _ _ (hs.child hv hd)

end Calls

/-! Insertions enter the bodies of partials, in scopes that are alike `base` steps out. -/

/-- Ways to render the programs that `p` reaches, both missing or alike. -/
def EnterAlike (waived : RenderError → Prop) (cs ds : Contexts) (V : Value → Value → Prop)
    (N : String → Prop) (T : String → String → Prop) (base : ℕ∞) (t : Template) (p : Program) :
    Option (Program → Scope → Render String) → Option (Program → Scope → Render String) → Prop :=
  Option.Rel fun enter enter' => ∀ q, t.Reaches cs p q → ∀ s s', ScopeAlike V N base s s' →
    Render.Alike waived cs ds T (enter q s) (enter' q s')

section Insertions
variable {base : ℕ∞} {p : Program} (hV : Value.Indistinct V)
  (henter : EnterAlike waived cs ds V N T base t p enter enter')
include hV henter

theorem alike_insertion (hs : ScopeAlike V N k scope scope') (hbase : base ≤ k) {name : String}
    {context : Option Expression} {named : NamedParams}
    (hfits : Fits t cs ds N T k (.insertion name context named))
    (hbody : ∀ b, ((t.partial? name).run cs).result = .ok (some b) → t.Reaches cs p b.program) :
    Render.Alike waived cs ds T (Renderer.insertion ⟨t, f, enter⟩ scope name context named)
      (Renderer.insertion ⟨t, f', enter'⟩ scope' name context named) := by
  have hsame := hfits.inserted name context named rfl
  apply (Render.Alike.same (fun _ => t.keeps_partial? name) hsame).bind
  intro found found' hfound
  obtain ⟨rfl, hfound⟩ := hfound
  cases found with
  | none => exact .fail _
  | some b =>
    cases henter with
    | none => exact .fail _
    | some henter =>
      have hwithin : ∀ e ∈ named.entries.map (·.2), e.Within N k :=
        fun e he => hfits.within e (List.mem_append_right _ he)
      apply (Render.alike_evaluateNamed hV hs hwithin).bind
      intro entries entries' hentries
      have hdata := hs.level.data.insertAll hentries
      cases context with
      | none => exact henter _ (hbody b hfound) _ _ ((hs.withData hdata).of_le hbase)
      | some e =>
        apply (Render.alike_evaluate hV hs (hfits.within e (by simp [Statement.expressions]))).bind
        intro v w hv
        exact henter _ (hbody b hfound) _ _ ((hs.child hv hdata).of_le (hbase.trans le_self_add))

end Insertions

section Programs
variable {base : ℕ∞} (hV : Value.Indistinct V) (htexts : TextsAlike t cs ds)
  (hT : TextRelation T)
include hV htexts hT

/-- A statement, if it is alike where it is an insertion, and its sections where it is a block. -/
theorem alike_statement (hs : ScopeAlike V N k scope scope') {x : Statement}
    (hfits : Fits t cs ds N T k x)
    (hinsertion : ∀ name context named, x = .insertion name context named →
      Render.Alike waived cs ds T (Renderer.insertion ⟨t, f, enter⟩ scope name context named)
        (Renderer.insertion ⟨t, f', enter'⟩ scope' name context named))
    (hsections : ∀ path arguments main inverse, x = .block path arguments main inverse →
      ∀ p ∈ [main, inverse], ∀ s s', ScopeAlike V N (k + 1) s s' →
        Render.Alike waived cs ds T (Renderer.program ⟨t, f, enter⟩ s p)
          (Renderer.program ⟨t, f', enter'⟩ s' p)) :
    Render.Alike waived cs ds T (Renderer.statement ⟨t, f, enter⟩ scope x)
      (Renderer.statement ⟨t, f', enter'⟩ scope' x) := by
  cases x with
  | raw text => exact .pure (hfits.shown text (.raw text))
  | comment text => exact .pure hT.empty
  | tag head arguments escaped => exact alike_tag hV hs htexts hfits
  | insertion name context named => exact hinsertion name context named rfl
  | block path arguments main inverse =>
    have hblock := hsections path arguments main inverse rfl
    exact alike_block hV hs htexts hT hfits (hblock main (by simp)) (hblock inverse (by simp))

/-- A program inside `i` sections, if all of its insertions are alike. -/
theorem alike_program_of_insertions {x : Program} {i : Nat}
    (hfits : AtDepth (fun d => Fits t cs ds N T (base + d)) i x)
    (hinsertion : ∀ name context named d, Occurs (.insertion name context named) d x →
      ∀ s s', ScopeAlike V N (base + (i + d : Nat)) s s' →
        Render.Alike waived cs ds T (Renderer.insertion ⟨t, f, enter⟩ s name context named)
          (Renderer.insertion ⟨t, f', enter'⟩ s' name context named))
    (hs : ScopeAlike V N (base + i) scope scope') :
    Render.Alike waived cs ds T (Renderer.program ⟨t, f, enter⟩ scope x)
      (Renderer.program ⟨t, f', enter'⟩ scope' x) := by
  induction x using Program.induct generalizing i scope scope' with
  | nil => exact .pure hT.empty
  | cons s rest ihs ihrest =>
    have hrest := ihrest (fun s d hd => hfits s d hd.later)
      (fun name context named d hd => hinsertion name context named d hd.later) hs
    have hfirst : Fits t cs ds N T (base + i) s := by simpa using hfits s 0 .here
    refine .append hT (alike_statement hV htexts hT hs hfirst ?_ ?_) hrest
    · rintro name context named rfl
      exact hinsertion name context named 0 .here _ _ hs
    · rintro path arguments main inverse rfl p hp s s' hs'
      obtain ⟨ihmain, ihinverse⟩ := ihs path arguments main inverse rfl
      have hdepth : base + (i + 1 : Nat) = base + i + 1 := by rw [Nat.cast_succ, add_assoc]
      rw [← hdepth] at hs'
      have hcount (d : Nat) : i + 1 + d = i + (d + 1) := by omega
      rcases List.mem_pair.mp hp with rfl | rfl
      · refine ihmain (fun s d hd => ?_) (fun name context named d hd => ?_) hs'
        · simpa only [hcount] using hfits s _ hd.main
        · simpa only [hcount] using hinsertion name context named _ hd.main
      · refine ihinverse (fun s d hd => ?_) (fun name context named d hd => ?_) hs'
        · simpa only [hcount] using hfits s _ hd.inverse
        · simpa only [hcount] using hinsertion name context named _ hd.inverse

end Programs

/-- A program renders alike in scopes that are alike `base` steps out, if all statements of the
programs that it reaches fit the depth at which they stand. -/
theorem alike_renderProgram {base : ℕ∞} {p : Program} (hV : Value.Indistinct V)
    (htexts : TextsAlike t cs ds) (hT : TextRelation T)
    (hfits : ∀ q, t.Reaches cs p q → AtDepth (fun d => Fits t cs ds N T (base + d)) 0 q)
    (room : Nat) {q : Program} (hq : t.Reaches cs p q) (hs : ScopeAlike V N base scope scope') :
    Render.Alike waived cs ds T (renderProgram t f room q scope)
      (renderProgram t f' room q scope') := by
  have hprogram (enter enter' : Option (Program → Scope → Render String))
      (henter : EnterAlike waived cs ds V N T base t p enter enter') (q : Program)
      (hq : t.Reaches cs p q) (s s' : Scope) (hs : ScopeAlike V N base s s') :
      Render.Alike waived cs ds T (Renderer.program ⟨t, f, enter⟩ s q)
        (Renderer.program ⟨t, f', enter'⟩ s' q) :=
    alike_program_of_insertions hV htexts hT (hfits q hq)
      (fun name context named d hd s s' hs => alike_insertion hV henter hs le_self_add
        (hfits q hq _ _ hd) fun b hb => .body hq hd hb) (by simpa using hs)
  induction room generalizing q scope scope' with
  | zero => exact hprogram none none .none q hq scope scope' hs
  | succ room ih =>
    have henter : EnterAlike waived cs ds V N T base t p (some (renderProgram t f room))
        (some (renderProgram t f' room)) := .some fun q hq s s' hs => ih hq hs
    exact hprogram _ _ henter q hq scope scope' hs

/-- Every name may be used, and paths may climb as far as they like. -/
abbrev FitsAnywhere (t : Template) (cs ds : Contexts) (T : String → String → Prop)
    (s : Statement) : Prop := Fits t cs ds (fun _ => True) T ⊤ s

theorem exists_standAlone (t : Template) : ∃ f, ∀ v, t.render v = t.renderWith f v :=
  ⟨Template.standAlone Template.standAloneLimit, Template.renderLevel_eq _ t⟩

/-- A template that parses renders its program with all partials still to be entered. -/
theorem exists_render {t : Template} {p : Program} (hp : parse t.source = .ok p) :
    ∃ f, ∀ v, t.render v = renderProgram t f t.options.partialLimit p (.root v) := by
  obtain ⟨f, hf⟩ := exists_standAlone t
  refine ⟨f, fun v => ?_⟩
  rw [hf, Template.renderWith, hp]

/-- A template renders alike for related values, if all statements of the programs that it reaches
fit. -/
theorem alike_render (hV : Value.Indistinct V) (htexts : TextsAlike t cs ds) (hT : TextRelation T)
    (hfits : ∀ p, parse t.source = .ok p → ∀ q, t.Reaches cs p q → ∀ s d, Occurs s d q →
      FitsAnywhere t cs ds T s) {v w : Value} (h : V v w) :
    Render.Alike waived cs ds T (t.render v) (t.render w) := by
  obtain ⟨f, hf⟩ := exists_standAlone t
  rw [hf, hf, Template.renderWith, Template.renderWith]
  cases hp : parse t.source with
  | error e => exact .fail (.parse e)
  | ok p =>
    have hdepth : ∀ q, t.Reaches cs p q →
        AtDepth (fun d => Fits t cs ds (fun _ => True) T (⊤ + d)) 0 q := by
      intro q hq s d hs
      rw [top_add]
      exact hfits p hp q hq s d hs
    exact alike_renderProgram hV htexts hT hdepth t.options.partialLimit .self (.root h ⊤)

end

end Stencil
