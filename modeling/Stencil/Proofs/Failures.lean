import Stencil.Proofs.Frames
import Stencil.Proofs.PartialLimit

/-!
What rendering can fail with. Over values without host objects every question is answered, if only
by null or an empty text: what is missing or of another kind is no error. So a template whose names
all lead somewhere fails at the limit of partials, and nowhere else.
-/
namespace Stencil

namespace Render

variable {α β : Type} {E : RenderError → Prop} {cs : Contexts}

/-- A rendering that keeps the contexts `cs` and fails with errors of `E` only. -/
structure FailsOnly (E : RenderError → Prop) (cs : Contexts) (m : Render α) : Prop where
  keeps : m.Keeps cs
  error {e : RenderError} : (m.run cs).result = .error e → E e

theorem FailsOnly.pure (a : α) : FailsOnly E cs (Pure.pure a : Render α) where
  keeps := .pure a
  error h := by cases h

theorem FailsOnly.fail {e : RenderError} (h : E e) : FailsOnly E cs (Render.fail e : Render α) where
  keeps := .ofExcept _
  error he := by
    cases he
    exact h

theorem FailsOnly.bind {m : Render α} {f : α → Render β} (h : m.FailsOnly E cs)
    (hf : ∀ a, (m.run cs).result = .ok a → (f a).FailsOnly E cs) : (m >>= f).FailsOnly E cs where
  keeps := h.keeps.bind fun a ha => (hf a ha).keeps
  error {e} he := by
    rw [result_bind h.keeps] at he
    cases hr : (m.run cs).result with
    | error e' =>
      rw [hr] at he
      cases he
      exact h.error hr
    | ok a =>
      rw [hr] at he
      exact (hf a hr).error he

/-- A rendering that is known not to fail. -/
theorem FailsOnly.of_ok {m : Render α} (h : m.Keeps cs) {a : α} (ha : (m.run cs).result = .ok a) :
    m.FailsOnly E cs where
  keeps := h
  error he := by
    rw [ha] at he
    cases he

end Render

/-- An error of a host object, which only reading its fields can end in. -/
def RenderError.IsHostAccess (e : RenderError) : Prop := ∃ cause, e = .hostAccess cause

namespace Render

variable {cs : Contexts}

theorem failsOnly_reading {α : Type} {r : Reading α} (h : r.Allowed) :
    (reading r).FailsOnly RenderError.IsHostAccess cs where
  keeps := keeps_reading h cs
  error {e} he := by
    have hresult : r.result.mapError .hostAccess = .error e := he
    cases hr : r.result with
    | ok a => rw [hr] at hresult; cases hresult
    | error cause =>
      rw [hr] at hresult
      cases hresult
      exact ⟨cause, rfl⟩

theorem failsOnly_evaluate (s : Scope) (e : Expression) :
    (evaluate s e).FailsOnly RenderError.IsHostAccess cs := by
  have hfound : (evaluate? s e).FailsOnly RenderError.IsHostAccess cs := by
    cases e with
    | path path => exact failsOnly_reading (allowed_resolve s path.steps)
    | string text => exact .pure _
    | numeral n => exact .pure _
  exact hfound.bind fun _ _ => .pure _

theorem failsOnly_evaluateNamed (s : Scope) (es : List (String × Expression)) :
    (evaluateNamed s es).FailsOnly RenderError.IsHostAccess cs := by
  induction es with
  | nil => exact .pure []
  | cons e rest ih => exact (failsOnly_evaluate s e.2).bind fun _ _ => ih.bind fun _ _ => .pure _

end Render

/-! Values without host objects. -/

/-- A value that is no host object and holds none. -/
inductive Value.HostFree : Value → Prop
  | null : HostFree .null
  | bool (b) : HostFree (.bool b)
  | number (n) : HostFree (.number n)
  | string (s) : HostFree (.string s)
  | array {items} : (∀ v ∈ items, HostFree v) → HostFree (.array items)
  | object {entries : List (String × Value)} : (∀ entry ∈ entries, HostFree entry.2) →
      HostFree (.object entries)

namespace Value.HostFree

variable {v : Value}

theorem elements (h : v.HostFree) : ∀ items ∈ v.elements?, ∀ w ∈ items, w.HostFree := by
  intro items hitems
  cases h with
  | array hmembers =>
    cases hitems
    exact hmembers
  | null | bool _ | number _ | string _ | object _ => cases hitems

theorem entries (h : v.HostFree) : ∀ entries ∈ v.entries?, ∀ entry ∈ entries, entry.2.HostFree := by
  intro entries hentries
  cases h with
  | object hmembers =>
    cases hentries
    exact hmembers
  | null | bool _ | number _ | string _ | array _ => cases hentries

/-- A key is answered without asking the application, by a member or by nothing. -/
theorem access (h : v.HostFree) (key : String) :
    ∃ found, v.access key = pure found ∧ ∀ w ∈ found, w.HostFree := by
  cases h with
  | array hmembers =>
    refine ⟨_, rfl, fun w hw => ?_⟩
    obtain ⟨i, -, hi⟩ := Option.bind_eq_some_iff.mp hw
    exact hmembers w (List.mem_of_getElem? hi)
  | object hmembers =>
    refine ⟨_, rfl, fun w hw => ?_⟩
    obtain ⟨before, after, rfl, -⟩ := List.lookup_eq_some_iff.mp hw
    exact hmembers (key, w) (by simp)
  | null | bool _ | number _ | string _ => exact ⟨none, rfl, by simp⟩

end Value.HostFree

/-! Scopes without host objects: scopes compared with themselves, where the relation of values says
something of the first only. -/

/-- The relation of values without host objects to all values. -/
def HostFreeBeside (v _w : Value) : Prop := v.HostFree

abbrev DataHostFree (d : PrivateData) : Prop := DataAlike HostFreeBeside (fun _ => True) d d

abbrev Scope.HostFree (s : Scope) : Prop := ScopeAlike HostFreeBeside (fun _ => True) ⊤ s s

theorem hostFree_of_rel {x : Option Value} (h : Option.Rel HostFreeBeside x x) :
    ∀ v ∈ x, v.HostFree := by
  rintro v rfl
  cases h with
  | some hv => exact hv

theorem DataHostFree.insertAll {d : PrivateData} (h : DataHostFree d)
    {pairs : List (String × Value)} (hp : ∀ pair ∈ pairs, pair.2.HostFree) :
    DataHostFree (d.insertAll pairs) :=
  DataAlike.insertAll h (List.forall₂_same.mpr fun pair hpair => ⟨rfl, hp pair hpair⟩)

theorem follow_hostFree {level : Level}
    (hl : LevelAlike HostFreeBeside (fun _ => True) level level) {v : Value} (hv : v.HostFree)
    (steps : List PathStep) :
    ∃ found, Scope.follow level v steps = pure found ∧ ∀ w ∈ found, w.HostFree := by
  induction steps generalizing v with
  | nil => exact ⟨some v, rfl, by simpa using hv⟩
  | cons step rest ih =>
    obtain ⟨found, hstep, hfound⟩ :
        ∃ found, Scope.step level v step = pure found ∧ ∀ w ∈ found, w.HostFree := by
      cases step with
      | this => exact ⟨some v, rfl, by simpa using hv⟩
      | parent => exact ⟨none, rfl, by simp⟩
      | datum name => exact ⟨_, rfl, hostFree_of_rel (hl.data name trivial)⟩
      | field name => exact hv.access name
    rw [Scope.follow, hstep, pure_bind]
    cases found with
    | none => exact ⟨none, rfl, by simp⟩
    | some w => exact ih (hfound w rfl)

theorem Scope.HostFree.resolve {s : Scope} (hs : s.HostFree) (steps : List PathStep) :
    ∃ found, s.resolve steps = pure found ∧ ∀ w ∈ found, w.HostFree := by
  unfold Scope.resolve
  split
  next t ht =>
    have hlevel := hs (steps.takeWhile (· == .parent)).length le_top
    rw [← map_level_ancestor?, ht] at hlevel
    cases hlevel with
    | some hl => exact follow_hostFree hl hl.value _
  next => exact ⟨none, rfl, by simp⟩

namespace Render

variable {s : Scope} (hs : s.HostFree)
include hs

theorem evaluate?_hostFree (e : Expression) :
    ∃ found, evaluate? s e = pure found ∧ ∀ v ∈ found, v.HostFree := by
  cases e with
  | path path =>
    obtain ⟨found, hfound, hfree⟩ := hs.resolve path.steps
    exact ⟨found, by rw [evaluate?, hfound]; rfl, hfree⟩
  | string text =>
    refine ⟨_, rfl, ?_⟩
    rintro _ ⟨⟩
    exact .string text
  | numeral n =>
    refine ⟨_, rfl, ?_⟩
    rintro _ ⟨⟩
    split
    · exact .bool _
    · exact .number _

/-- An expression has a value in such a scope: there is nothing that it could fail with. -/
theorem evaluate_hostFree (e : Expression) : ∃ v, evaluate s e = pure v ∧ v.HostFree := by
  obtain ⟨found, hfound, hfree⟩ := evaluate?_hostFree hs e
  refine ⟨found.getD .null, by rw [evaluate, hfound, pure_bind], ?_⟩
  cases found with
  | none => exact .null
  | some v => exact hfree v rfl

theorem evaluateAll_hostFree (es : List Expression) :
    ∃ vs, evaluateAll s es = pure vs ∧ vs.length = es.length ∧ ∀ v ∈ vs, v.HostFree := by
  induction es with
  | nil => exact ⟨[], rfl, rfl, by simp⟩
  | cons e rest ih =>
    obtain ⟨v, hv, hfree⟩ := evaluate_hostFree hs e
    obtain ⟨vs, hvs, hlength, hall⟩ := ih
    refine ⟨v :: vs, ?_, by simp [hlength], List.forall_mem_cons.mpr ⟨hfree, hall⟩⟩
    rw [evaluateAll, hv, hvs, pure_bind, pure_bind]

theorem evaluateNamed_hostFree (es : List (String × Expression)) :
    ∃ entries, evaluateNamed s es = pure entries ∧ ∀ entry ∈ entries, entry.2.HostFree := by
  induction es with
  | nil => exact ⟨[], rfl, by simp⟩
  | cons e rest ih =>
    obtain ⟨v, hv, hfree⟩ := evaluate_hostFree hs e.2
    obtain ⟨entries, hentries, hall⟩ := ih
    refine ⟨(e.1, v) :: entries, ?_, List.forall_mem_cons.mpr ⟨hfree, hall⟩⟩
    rw [evaluateNamed, hv, hentries, pure_bind, pure_bind]

end Render

/-! The helpers of every template. -/

/-- A call with values without host objects. -/
structure Call.HostFree (call : Call) : Prop where
  context : call.context.HostFree
  data : DataHostFree call.data
  params : ∀ v ∈ call.params, v.HostFree

theorem elementData_hostFree {d : PrivateData} (hd : DataHostFree d)
    {extra : List (String × Value)} (he : ∀ entry ∈ extra, entry.2.HostFree) (i n : Nat) :
    DataHostFree (Builtin.elementData d extra i n) := by
  refine hd.insertAll fun pair hpair => ?_
  rcases List.mem_append.mp hpair with hpair | hpair
  · exact he pair hpair
  · simp only [List.mem_cons, List.not_mem_nil, or_false] at hpair
    rcases hpair with rfl | rfl | rfl
    · exact .number _
    · exact .bool _
    · exact .bool _

theorem elementScopes_hostFree {d : PrivateData} (hd : DataHostFree d) {items : List Value}
    (h : ∀ v ∈ items, v.HostFree) :
    ∀ scope ∈ Builtin.elementScopes d items, scope.1.HostFree ∧ DataHostFree scope.2 := by
  intro scope hscope
  obtain ⟨⟨item, i⟩, hitem, rfl⟩ := List.mem_map.mp hscope
  exact ⟨h item (List.fst_mem_of_mem_zipIdx hitem), elementData_hostFree hd (by simp) _ _⟩

theorem entryScopes_hostFree {d : PrivateData} (hd : DataHostFree d)
    {entries : List (String × Value)} (h : ∀ entry ∈ entries, entry.2.HostFree) :
    ∀ scope ∈ Builtin.entryScopes d entries, scope.1.HostFree ∧ DataHostFree scope.2 := by
  intro scope hscope
  obtain ⟨⟨entry, i⟩, hentry, rfl⟩ := List.mem_map.mp hscope
  refine ⟨h entry (List.fst_mem_of_mem_zipIdx hentry), elementData_hostFree hd ?_ _ _⟩
  simpa using Value.HostFree.string entry.1

section Helpers
variable {E : RenderError → Prop} {cs : Contexts} {m : Means}
  (hm : ∀ which v d, v.HostFree → DataHostFree d → (m.inSection which v d).FailsOnly E cs)
include hm

theorem failsOnly_renderThen (which : Section) {v : Value} (hv : v.HostFree) {d : PrivateData}
    (hd : DataHostFree d) {next : String → Action}
    (hnext : ∀ s, ((next s).perform m).FailsOnly E cs) :
    ((Action.renderThen which v d next).perform m).FailsOnly E cs := by
  rw [Action.perform_renderThen]
  exact (hm which v d hv hd).bind fun s _ => hnext s

theorem failsOnly_branch {call : Call} (hc : call.HostFree) (which : Section) :
    ((Action.branch call which).perform m).FailsOnly E cs :=
  failsOnly_renderThen hm which hc.context hc.data fun _ => .pure _

theorem failsOnly_renderEach (which : Section) {scopes : List (Value × PrivateData)}
    (hs : ∀ scope ∈ scopes, scope.1.HostFree ∧ DataHostFree scope.2) (before : String) :
    ((Action.renderEach which scopes before).perform m).FailsOnly E cs := by
  induction scopes generalizing before with
  | nil => exact .pure before
  | cons scope rest ih =>
    obtain ⟨⟨hv, hd⟩, hrest⟩ := List.forall_mem_cons.mp hs
    exact failsOnly_renderThen hm which hv hd fun s => ih hrest (before ++ s)

variable {call : Call} (hc : call.HostFree)
include hc

theorem failsOnly_each : ((Builtin.eachHelper call).perform m).FailsOnly E cs := by
  have htarget : ((call.param? 0).getD .null).HostFree := by
    cases hp : call.param? 0 with
    | none => exact .null
    | some v => exact hc.params v (List.mem_of_getElem? hp)
  rw [Builtin.eachHelper]
  split
  next items hitems =>
    obtain ⟨hitems, -⟩ := Option.filter_eq_some_iff.mp hitems
    exact failsOnly_renderEach hm .main
      (elementScopes_hostFree hc.data (htarget.elements items hitems)) ""
  next =>
    split
    next entries hentries =>
      obtain ⟨hentries, -⟩ := Option.filter_eq_some_iff.mp hentries
      exact failsOnly_renderEach hm .main
        (entryScopes_hostFree hc.data (htarget.entries entries hentries)) ""
    next => exact failsOnly_branch hm hc .inverse

theorem failsOnly_with : ((Builtin.withHelper call).perform m).FailsOnly E cs := by
  rw [Builtin.withHelper]
  split
  next v hv =>
    obtain ⟨hv, -⟩ := Option.filter_eq_some_iff.mp hv
    exact failsOnly_renderThen hm .main (hc.params v (List.mem_of_getElem? hv)) hc.data
      fun _ => .pure _
  next => exact failsOnly_branch hm hc .inverse

omit hm in
/-- A lookup that is given a value and a key shows what the key stands for, if anything. -/
theorem failsOnly_lookup (h : 2 ≤ call.params.length) :
    ((Builtin.lookupHelper call).perform m).FailsOnly E cs := by
  have htarget : call.param? 0 = some call.params[0] := List.getElem?_eq_getElem _
  have hkey : call.param? 1 = some call.params[1] := List.getElem?_eq_getElem _
  obtain ⟨found, hfound, -⟩ :=
    (hc.params call.params[0] (List.getElem_mem _)).access call.params[1].text
  rw [Builtin.lookupHelper, htarget, hkey]
  dsimp only
  rw [Action.perform, hfound]
  exact .pure _

theorem failsOnly_builtin {name : String} {helper : Helper} (hh : builtin? name = some helper)
    (hlookup : name = "lookup" → 2 ≤ call.params.length) :
    ((helper call).perform m).FailsOnly E cs := by
  cases name, helper, hh using builtin?_cases with
  | each => exact failsOnly_each hm hc
  | ifHelper => exact failsOnly_branch hm hc _
  | localize =>
    exact .bind (.of_ok (m.template.keeps_localize _) (by rw [m.template.run_localize]))
      fun _ _ => .pure _
  | log =>
    refine Render.FailsOnly.bind (.of_ok (.note ?_) rfl) fun _ _ => .pure ""
    exact trivial
  | lookup => exact failsOnly_lookup hc (hlookup rfl)
  | unlessHelper => exact failsOnly_branch hm hc _
  | withHelper => exact failsOnly_with hm hc

end Helpers

/-! Programs whose names all lead somewhere. -/

/-- The name of a helper of every template. -/
def NamesBuiltin (name? : Option String) : Prop := ∃ name ∈ name?, (builtin? name).isSome

/-- A `lookup` is given a value and a key. -/
def LooksUpKey (name? : Option String) (arguments : Arguments) : Prop :=
  name? = some "lookup" → 2 ≤ arguments.positional.length

/-- A statement whose names all lead somewhere. A block calls a helper of every template, and so
does a tag that has arguments; a partial that is inserted can be found. -/
def Statement.Closed (t : Template) (cs : Contexts) : Statement → Prop
  | .raw _ | .comment _ => True
  | .tag head arguments _ =>
    (arguments.isEmpty = false → NamesBuiltin (head.asPath?.bind Path.helperName?)) ∧
      LooksUpKey (head.asPath?.bind Path.helperName?) arguments
  | .insertion name _ _ => ∃ b, ((t.partial? name).run cs).result = .ok (some b)
  | .block path arguments _ _ =>
    NamesBuiltin path.helperName? ∧ LooksUpKey path.helperName? arguments

/-- A program is closed when all statements of the programs that it reaches are. -/
def Template.Closed (t : Template) (cs : Contexts) (p : Program) : Prop :=
  ∀ q s d, t.Reaches cs p q → Occurs s d q → s.Closed t cs

section Programs
variable {E : RenderError → Prop} {t : Template} {cs : Contexts}
  {f : String → Value → Render String} {enter : Option (Program → Scope → Render String)}
  {s : Scope}

theorem NamesBuiltin.found {name? : Option String} (h : NamesBuiltin name?) :
    ∃ name helper, name? = some name ∧ builtin? name = some helper ∧
      (name?.bind fun name => (builtin? name).map (name, ·)) = some (name, helper) := by
  obtain ⟨name, rfl, hsome⟩ := h
  obtain ⟨helper, hh⟩ := Option.isSome_iff_exists.mp hsome
  exact ⟨name, helper, rfl, hh, by simp [hh]⟩

theorem failsOnly_invoke (hs : s.HostFree) {name : String} {helper : Helper}
    (hh : builtin? name = some helper) {arguments : Arguments}
    (hlookup : LooksUpKey (some name) arguments) (kind : CallKind) (mainEmpty inverseEmpty : Bool)
    {inSection : Section → Value → PrivateData → Render String}
    (hsection : ∀ which v d, v.HostFree → DataHostFree d → (inSection which v d).FailsOnly E cs) :
    (Renderer.invoke ⟨t, f, enter⟩ s name helper kind arguments mainEmpty inverseEmpty
      inSection).FailsOnly E cs := by
  obtain ⟨params, hparams, hlength, hfree⟩ := Render.evaluateAll_hostFree hs arguments.positional
  obtain ⟨named, hnamed, -⟩ := Render.evaluateNamed_hostFree hs arguments.named.entries
  rw [Renderer.invoke, hparams, hnamed, pure_bind, pure_bind]
  refine failsOnly_builtin hsection ?_ hh fun hname => ?_
  · exact ⟨hs.level.value, hs.level.data, hfree⟩
  · rw [hlength]
    exact hlookup (congrArg some hname)

theorem failsOnly_tag (hb : t.OnlyBuiltins cs) (hs : s.HostFree) {head : Expression}
    {arguments : Arguments} {escaped : Bool}
    (hx : Statement.Closed t cs (.tag head arguments escaped)) :
    (Renderer.tag ⟨t, f, enter⟩ s head arguments escaped).FailsOnly E cs := by
  obtain ⟨hnames, hlookup⟩ := hx
  have htext : (Renderer.tagText ⟨t, f, enter⟩ s head arguments).FailsOnly E cs := by
    obtain ⟨hkeeps, hresult⟩ := result_headHelper? hb ⟨t, f, enter⟩ rfl head.asPath?
    refine Render.FailsOnly.bind (.of_ok hkeeps hresult) fun found hfound => ?_
    obtain rfl := Except.ok.inj (hresult.symm.trans hfound)
    -- a head that names no helper is shown as a value; only with arguments would it be missed
    split
    next name helper hfound =>
      obtain ⟨name', hname, hhelper⟩ := Option.bind_eq_some_iff.mp hfound
      obtain ⟨helper', hh, hpair⟩ := Option.map_eq_some_iff.mp hhelper
      cases hpair
      rw [hname] at hlookup
      exact failsOnly_invoke hs hh hlookup _ _ _ fun _ _ _ _ _ => .pure _
    next hnone =>
      cases hempty : arguments.isEmpty with
      | true =>
        obtain ⟨found, hfound, -⟩ := Render.evaluate?_hostFree hs head
        rw [hfound]
        exact .pure _
      | false =>
        obtain ⟨_, _, -, -, hsome⟩ := (hnames hempty).found
        rw [hsome] at hnone
        cases hnone
  refine htext.bind fun text _ => ?_
  split
  · exact .of_ok (t.keeps_escape text) (by rw [t.run_escape])
  · exact .pure text

/-- A block, if its sections fail with such errors only. -/
theorem failsOnly_block (hb : t.OnlyBuiltins cs) (hs : s.HostFree) {path : Path}
    {arguments : Arguments} {main inverse : Program}
    (hx : Statement.Closed t cs (.block path arguments main inverse))
    (hmain : ∀ s, s.HostFree → (Renderer.program ⟨t, f, enter⟩ s main).FailsOnly E cs)
    (hinverse : ∀ s, s.HostFree → (Renderer.program ⟨t, f, enter⟩ s inverse).FailsOnly E cs) :
    (Renderer.statement ⟨t, f, enter⟩ s (.block path arguments main inverse)).FailsOnly E cs := by
  obtain ⟨hnames, hlookup⟩ := hx
  obtain ⟨name, helper, hname, hh, hsome⟩ := hnames.found
  obtain ⟨hkeeps, hresult⟩ := result_headHelper? hb ⟨t, f, enter⟩ rfl (some path)
  rw [Option.bind_some, hsome] at hresult
  rw [Renderer.statement]
  refine Render.FailsOnly.bind (.of_ok hkeeps hresult) fun found hfound => ?_
  obtain rfl := Except.ok.inj (hresult.symm.trans hfound)
  rw [hname] at hlookup
  refine failsOnly_invoke hs hh hlookup _ _ _ fun which v d hv hd => ?_
  cases which with
  | main => exact hmain _ (ScopeAlike.child hs hv hd)
  | inverse => exact hinverse _ (ScopeAlike.child hs hv hd)

/-- An insertion fails at the limit, or as the body of its partial does. -/
theorem failsOnly_insertion (hs : s.HostFree) {name : String} {context : Option Expression}
    {named : NamedParams} (hx : Statement.Closed t cs (.insertion name context named))
    (henter : ∀ b, ((t.partial? name).run cs).result = .ok (some b) → ∀ render ∈ enter,
      ∀ s, s.HostFree → (render b.program s).FailsOnly RenderError.IsLimit cs) :
    (Renderer.insertion ⟨t, f, enter⟩ s name context named).FailsOnly RenderError.IsLimit cs := by
  obtain ⟨b, hb⟩ := hx
  rw [Renderer.insertion]
  refine Render.FailsOnly.bind (.of_ok (t.keeps_partial? name) hb) fun found hfound => ?_
  obtain rfl := Except.ok.inj (hb.symm.trans hfound)
  dsimp only
  cases enter with
  | none => exact .fail ⟨_, _, rfl⟩
  | some render =>
    obtain ⟨entries, hentries, hfree⟩ := Render.evaluateNamed_hostFree hs named.entries
    have hdata := DataHostFree.insertAll hs.level.data hfree
    dsimp only
    rw [hentries, pure_bind]
    cases context with
    | none => exact henter b hb render rfl _ (ScopeAlike.withData hs hdata)
    | some e =>
      obtain ⟨v, hv, hvfree⟩ := Render.evaluate_hostFree hs e
      dsimp only
      rw [hv, pure_bind]
      exact henter b hb render rfl _ (ScopeAlike.child hs hvfree hdata)

/-- A program, if its statements are closed and the bodies that it inserts fail only so. -/
theorem failsOnly_program (hb : t.OnlyBuiltins cs) {p : Program}
    (hp : ∀ x d, Occurs x d p → x.Closed t cs)
    (henter : ∀ name context named d b, Occurs (.insertion name context named) d p →
      ((t.partial? name).run cs).result = .ok (some b) → ∀ render ∈ enter,
      ∀ s, s.HostFree → (render b.program s).FailsOnly RenderError.IsLimit cs)
    (hs : s.HostFree) :
    (Renderer.program ⟨t, f, enter⟩ s p).FailsOnly RenderError.IsLimit cs := by
  -- what is asked of statements and bodies is asked of all that occur, so it holds in sections too
  induction p using Program.induct generalizing s with
  | nil => exact .pure ""
  | cons x rest ihx ihrest =>
    have hrest := ihrest (fun x d hx => hp x d hx.later)
      (fun name context named d b hd => henter name context named d b hd.later) hs
    have hx := hp x 0 .here
    rw [Renderer.program_cons]
    refine Render.FailsOnly.bind ?_ fun _ _ => hrest.bind fun _ _ => .pure _
    cases x with
    | raw text => exact .pure text
    | comment text => exact .pure ""
    | tag head arguments escaped => exact failsOnly_tag hb hs hx
    | insertion name context named =>
      exact failsOnly_insertion hs hx fun b hb => henter name context named 0 b .here hb
    | block path arguments main inverse =>
      obtain ⟨ihmain, ihinverse⟩ := ihx path arguments main inverse rfl
      refine failsOnly_block hb hs hx (fun s hs => ?_) (fun s hs => ?_)
      · exact ihmain (fun x d hx => hp x _ hx.main)
          (fun name context named d b hd => henter name context named _ b hd.main) hs
      · exact ihinverse (fun x d hx => hp x _ hx.inverse)
          (fun name context named d b hd => henter name context named _ b hd.inverse) hs

/-- A program that is closed fails at the limit of partials only, however deep they are nested. -/
theorem failsOnly_renderProgram (hb : t.OnlyBuiltins cs) {p : Program} (hp : t.Closed cs p)
    (room : Nat) {q : Program} (hq : t.Reaches cs p q) (hs : s.HostFree) :
    (renderProgram t f room q s).FailsOnly RenderError.IsLimit cs := by
  induction room generalizing q s with
  | zero =>
    rw [renderProgram]
    exact failsOnly_program hb (fun x d hx => hp q x d hq hx) (by simp) hs
  | succ room ih =>
    rw [renderProgram]
    refine failsOnly_program hb (fun x d hx => hp q x d hq hx) ?_ hs
    rintro name context named d b hd hpartial _ ⟨⟩ s hs
    exact ih (.body hq hd hpartial) hs

/-- A partial that is registered in a context of the chain can be found, unless a delegate supplies
a text for its name that does not parse. -/
theorem Template.exists_partial_of_registered {name : String}
    (hregistered : ∃ id ∈ t.chain, ((cs.get id).partials.get? name).isSome)
    (hsources : ∀ id ∈ t.chain, ∀ d source, (cs.get id).delegate = some d →
      d.partialSource? name = some source → ∃ p, parse source = .ok p) :
    ∃ b, ((t.partial? name).run cs).result = .ok (some b) := by
  have hparses : ∀ id ∈ t.chain, ∀ e, (cs.get id).partial? name ≠ some (.error e) := by
    intro id hid e he
    simp only [ExecutionContext.partial?] at he
    split at he
    · cases he
    · cases he
    · obtain ⟨source, hsource, he⟩ := Option.map_eq_some_iff.mp he
      obtain ⟨d, hd, hsource⟩ := Option.bind_eq_some_iff.mp hsource
      obtain ⟨p, hp⟩ := hsources id hid d source hd hsource
      obtain ⟨b, hb⟩ : ∃ b, Partial.compile source = .ok b :=
        ⟨_, Partial.compile_source ⟨source, p, hp⟩⟩
      rw [hb] at he
      cases he
  obtain ⟨id, hid, hsome⟩ := hregistered
  obtain ⟨b, hb⟩ := Option.isSome_iff_exists.mp hsome
  have hhere : (cs.get id).partial? name = some (.ok b) := by
    simp [ExecutionContext.partial?, hb]
  rw [t.run_partial? cs]
  cases hfirst : t.first? cs (·.partial? name) with
  | none =>
    have hnone : (cs.get id).partial? name = none := List.findSome?_eq_none_iff.mp hfirst id hid
    rw [hhere] at hnone
    cases hnone
  | some found =>
    obtain ⟨other, hother, hfound⟩ := List.exists_of_findSome?_eq_some hfirst
    cases found with
    | ok p => exact ⟨p, rfl⟩
    | error e => exact absurd hfound (hparses other hother e)

/-- Absence is no error. Where only the helpers of every template are called and all names of a
template lead somewhere, it renders for every value without host objects, or ends at the limit of
partials: whatever keys, elements, outer scopes and private data it asks for in vain. -/
theorem render_closed (hb : t.OnlyBuiltins cs) {p : Program} (hp : parse t.source = .ok p)
    (hc : t.Closed cs p) {v : Value} (hv : v.HostFree) :
    (∃ text, ((t.render v).run cs).result = .ok text) ∨
      ∃ name limit, ((t.render v).run cs).result = .error (.recursionLimit name limit) := by
  obtain ⟨f, hf⟩ := exists_render hp
  have hfails : (t.render v).FailsOnly RenderError.IsLimit cs := by
    rw [hf]
    exact failsOnly_renderProgram hb hc t.options.partialLimit .self (ScopeAlike.root hv ⊤)
  cases hr : ((t.render v).run cs).result with
  | ok text => exact .inl ⟨text, rfl⟩
  | error e =>
    obtain ⟨name, limit, rfl⟩ := hfails.error hr
    exact .inr ⟨name, limit, rfl⟩

end Programs

open Written in
/-- A text `x` with an insertion of the partial `loop` for the same value. -/
def loopPartial : Partial where
  source := "x\x7b\x7b>\"loop\" this\x7d\x7d"
  program := [.raw "x", .insertion "loop" (some (.path ⟨[.this], "this"⟩)) {}]
  parses := by
    have hthis : WritablePath ⟨[.this], "this"⟩ := writablePath_plain (by decide) (by decide)
    have hx : WritableRaw true "x".toList := ⟨by decide, by decide, fun _ => by simp [Paired]⟩
    have hw : Writable [.raw "x", .insertion "loop" (some (.path ⟨[.this], "this"⟩)) {}] := by
      refine ⟨.raw hx (by simp [isRaw]) ?_, by decide⟩
      refine .insertion (by simp [WritableString]) ?_ writableNamed_nil .nil
      simpa [WritableExpression] using hthis
    have htext : ProgramText false
        [.raw "x", .insertion "loop" (some (.path ⟨[.this], "this"⟩)) {}] _ :=
      .raw (.tag (.insertion .nil (.positional .space .nil) .nil) .nil)
    exact htext.parse hw

open Written in
/-- A template that shows, for want of any elements, what two steps out from the root leads to, and
for each element inserts a partial that never ends. -/
theorem render_closed_elements :
    let cs := Contexts.empty.update .global (·.insertPartial "loop" loopPartial)
    let source := "\x7b\x7b#[each] [a]\x7d\x7d\x7b\x7b>\"loop\"\x7d\x7d" ++
      "\x7b\x7belse\x7d\x7d\x7b\x7b../../[b]\x7d\x7dnone\x7b\x7b/[each]\x7d\x7d"
    let t : Template := ⟨source, { partialLimit := 2 }, .global, none⟩
    let out (v : Value) : Except RenderError String := ((t.render v).run cs).result
    out .null = .ok "none" ∧
      out (.object [("a", .array [.null])]) = .error (.recursionLimit "loop" 2) ∧
      ((∃ text, out (.object [("a", .array [])]) = .ok text) ∨
        ∃ name limit, out (.object [("a", .array [])]) = .error (.recursionLimit name limit)) := by
  intro cs source t out
  let head : Path := ⟨[.field "each"], "[each]"⟩
  let a : Path := ⟨[.field "a"], "[a]"⟩
  let b : Path := ⟨[.parent, .parent, .field "b"], "../../[b]"⟩
  let p : Program := [.block head ⟨[.path a], {}⟩ [.insertion "loop" none {}]
    [.tag (.path b) {} true, .raw "none"]]
  have hp : parse t.source = .ok p := by
    have hhead : WritablePath head := writablePath_plain (by decide) (by decide)
    have ha : WritablePath a := writablePath_plain (by decide) (by decide)
    have hb : WritablePath b :=
      ⟨by simp [b], ⟨2, none, [.field "b"], rfl, by decide⟩, by decide, by decide⟩
    have hnone : WritableRaw true "none".toList := ⟨by decide, by decide, fun _ => by simp [Paired]⟩
    have hw : Writable p := by
      refine ⟨.block hhead (writableArguments_single ha) ?_ ?_ .nil, by decide⟩
      · exact .insertion (by simp [WritableString]) (by simp) writableNamed_nil .nil
      · exact .tag hb writableArguments_nil (.raw hnone (by simp) .nil)
    have htext : ProgramText false p _ :=
      .divided (.opening (.intro .nil (.positional .space .nil) .nil))
        (.tag (.insertion .nil .nil .nil) .nil) (.otherwise .nil .nil)
        (.tag (.escaped (.intro .nil .nil .nil)) (.raw .nil)) (.closing .nil .nil) .nil
    refine (congrArg parse ?_).trans (htext.parse hw)
    decide +kernel
  have hnodelegate (id : ContextId) : (cs.get id).delegate = none := by
    simp only [cs, Contexts.get_update]
    split <;> rfl
  have hfound : ∃ b, ((t.partial? "loop").run cs).result = .ok (some b) := by
    refine Template.exists_partial_of_registered ⟨.global, by simp [t, Template.chain], rfl⟩ ?_
    intro id _ d source hd
    rw [hnodelegate] at hd
    cases hd
  have hstatements : ∀ q, q = p ∨ q = loopPartial.program → ∀ x d, Occurs x d q →
      x.Closed t cs ∧ ∀ name context named, x = .insertion name context named → name = "loop" := by
    rintro q (rfl | rfl) x d hx
    · simp only [p] at hx
      cases hx with
      | here => exact ⟨⟨⟨"each", rfl, rfl⟩, by simp [LooksUpKey, Path.helperName?, head]⟩, by simp⟩
      | later hx => cases hx
      | main hx =>
        cases hx with
        | here => exact ⟨hfound, by simp⟩
        | later hx => cases hx
      | inverse hx =>
        cases hx with
        | here => exact ⟨⟨by simp [Arguments.isEmpty, NamedParams.isEmpty],
            by simp [LooksUpKey, Expression.asPath?, Path.helperName?, b]⟩, by simp⟩
        | later hx =>
          cases hx with
          | here => exact ⟨trivial, by simp⟩
          | later hx => cases hx
    · simp only [loopPartial] at hx
      cases hx with
      | here => exact ⟨trivial, by simp⟩
      | later hx =>
        cases hx with
        | here => exact ⟨hfound, by simp⟩
        | later hx => cases hx
  have hreach : ∀ q, t.Reaches cs p q → q = p ∨ q = loopPartial.program := by
    intro q hq
    induction hq with
    | self => exact .inl rfl
    | body hq hx hb ih =>
      obtain rfl := (hstatements _ ih _ _ hx).2 _ _ _ rfl
      cases hb
      exact .inr rfl
  have hclosed : t.Closed cs p := fun q x d hq hx => (hstatements q (hreach q hq) x d hx).1
  have hempty : Value.HostFree (.object [("a", .array [])]) := by
    refine .object fun entry hentry => ?_
    obtain rfl := List.mem_singleton.mp hentry
    exact .array (by simp)
  obtain ⟨f, hf⟩ := exists_render hp
  refine ⟨?_, ?_, render_closed (fun _ => rfl) hp hclosed hempty⟩
  · dsimp only [out]
    rw [hf]
    rfl
  · dsimp only [out]
    rw [hf]
    rfl

end Stencil
