import Stencil.Proofs.ReadOrder

/-!
Iteration. The helper `each` has its section rendered once for every element, in order, and ends at
the first element that fails. What holds of one element after the other is stated for any list of
renderings, and then for the elements of sequences and mappings.
-/
namespace Stencil

/-! One rendering after the other. -/

/-- Renderings that succeed one after the other, each in the contexts that the one before it left:
their texts, the contexts in the end, and all their events. -/
inductive Render.InTurn : List (Render String) → Contexts → List String → Contexts → List Event →
    Prop
  | nil {cs} : InTurn [] cs [] cs []
  | cons {m ms cs text ds events texts es more} : m.run cs = ⟨.ok text, ds, events⟩ →
      InTurn ms ds texts es more → InTurn (m :: ms) cs (text :: texts) es (events ++ more)

/-- A rendering that comes to the texts of others put together, after the events `first`. Where one
of these fails it ends with that error, and what follows is not rendered. -/
structure Render.Visits (cs : Contexts) (first : List Event) (ms : List (Render String))
    (m : Render String) : Prop where
  all {texts ds events} : InTurn ms cs texts ds events →
    m.run cs = ⟨.ok (String.join texts), ds, first ++ events⟩
  fault {before failing after texts ds events e es last} : ms = before ++ failing :: after →
    InTurn before cs texts ds events → failing.run ds = ⟨.error e, es, last⟩ →
    m.run cs = ⟨.error e, es, first ++ (events ++ last)⟩

/-- Either all renderings succeed in turn, or those before one that fails do. -/
theorem Render.inTurn_or_fault (ms : List (Render String)) (cs : Contexts) :
    (∃ texts ds events, InTurn ms cs texts ds events) ∨
      ∃ before failing after texts ds events e es last, ms = before ++ failing :: after ∧
        InTurn before cs texts ds events ∧ failing.run ds = ⟨.error e, es, last⟩ := by
  induction ms generalizing cs with
  | nil => exact .inl ⟨[], cs, [], .nil⟩
  | cons m ms ih =>
    obtain ⟨result, ds, events, hm⟩ : ∃ result ds events, m.run cs = ⟨result, ds, events⟩ :=
      ⟨_, _, _, rfl⟩
    cases result with
    | error e => exact .inr ⟨[], m, ms, [], cs, [], e, ds, events, rfl, .nil, hm⟩
    | ok text =>
      rcases ih ds with ⟨texts, es, more, hms⟩ |
        ⟨before, failing, after, texts, es, more, e, fs, last, rfl, hbefore, hfails⟩
      · exact .inl ⟨_, _, _, .cons hm hms⟩
      · exact .inr ⟨m :: before, failing, after, _, _, _, e, fs, last, rfl, .cons hm hbefore,
          hfails⟩

namespace Action

variable {means : Means} {which : Section} {cs ds : Contexts}

/-- The renderings of a section for a list of scopes. -/
def sections (means : Means) (which : Section) (scopes : List (Value × PrivateData)) :
    List (Render String) :=
  scopes.map fun scope => means.inSection which scope.1 scope.2

/-- Once the section is rendered for some scopes, it is rendered for those that are left. -/
theorem run_renderEach_append {passed : List (Value × PrivateData)} {texts : List String}
    {events : List Event} (h : Render.InTurn (sections means which passed) cs texts ds events)
    (rest : List (Value × PrivateData)) (before : String) :
    ((renderEach which (passed ++ rest) before).perform means).run cs =
      { ((renderEach which rest (before ++ String.join texts)).perform means).run ds with
        events := events ++
          (((renderEach which rest (before ++ String.join texts)).perform means).run ds).events } := by
  induction passed generalizing cs before texts events with
  | nil =>
    cases h
    rw [String.join_nil, String.append_empty]
    rfl
  | cons scope passed ih =>
    cases h with
    | cons hm hrest =>
      rw [List.cons_append, renderEach, perform_renderThen, Render.run_bind_of_ok (by rw [hm]), hm]
      dsimp only
      rw [ih hrest, String.join_cons, String.append_assoc, List.append_assoc]

/-- The section is rendered for every one of the scopes in order. -/
theorem visits_renderEach (means : Means) (which : Section)
    (scopes : List (Value × PrivateData)) (cs : Contexts) :
    Render.Visits cs [] (sections means which scopes)
      ((renderEach which scopes "").perform means) where
  all {texts ds events} h := by
    have hrun := run_renderEach_append h [] ""
    rw [List.append_nil, String.empty_append] at hrun
    rw [hrun, renderEach]
    simp [text, perform, Render.run, Render.ofExcept]
  fault {before failing after texts ds events e es last} heq h hfails := by
    obtain ⟨passed, _, rfl, rfl, hrest⟩ := List.map_eq_append_iff.mp heq
    obtain ⟨scope, rest, rfl, rfl, -⟩ := List.map_eq_cons_iff.mp hrest
    rw [run_renderEach_append h, renderEach, perform_renderThen,
      Render.run_bind_of_error (by rw [hfails]), hfails]
    rfl

end Action

/-! What a tag shows. -/

/-- The text of a tag as it is shown. -/
def Template.shown (t : Template) (escaped : Bool) (text : String) : Render String :=
  if escaped then t.escape text else return text

/-- A tag that names no helper shows what its path leads to. -/
theorem Renderer.statement_path (r : Renderer) (s : Scope) {path : Path}
    (hname : path.helperName? = none) (escaped : Bool) :
    r.statement s (.tag (.path path) {} escaped) =
      Render.reading (s.resolve path.steps) >>= fun found =>
        r.template.shown escaped (found.elim "" Value.text) := by
  have hhead : r.headHelper? (some path) = pure none := by
    rw [headHelper?, Option.bind_some, hname]
  rw [statement, tag, tagText, Expression.asPath?, hhead, pure_bind]
  change (Render.evaluate? s (.path path) >>= fun found =>
    pure (found.elim "" Value.text)) >>= r.template.shown escaped = _
  rw [bind_assoc]
  simp only [pure_bind]
  rfl

/-- A tag that shows a path without reading a field. -/
theorem Renderer.statement_shown (r : Renderer) {s : Scope} {path : Path} {found : Option Value}
    (hname : path.helperName? = none) (h : s.resolve path.steps = pure found) (escaped : Bool) :
    r.statement s (.tag (.path path) {} escaped) =
      r.template.shown escaped (found.elim "" Value.text) := by
  rw [r.statement_path s hname, h]
  exact pure_bind found _

theorem Scope.resolve_datum (s : Scope) (name : String) :
    s.resolve [.datum name] = pure (s.data.get? name) := by
  have hfollow : s.resolve [.datum name] = follow s.level s.level.value [.datum name] := rfl
  rw [hfollow, follow, step, pure_bind, data]
  cases s.level.data.get? name <;> rfl

/-! Elements and entries. -/

namespace Builtin

/-- What is read in the private data of an element: its place, and else what is read outside. -/
theorem get?_elementData (data : PrivateData) (extra : List (String × Value)) (i n : Nat)
    (name : String) :
    (elementData data extra i n).get? name =
      if name = "last" then some (.bool (i + 1 == n))
      else if name = "first" then some (.bool (i == 0))
      else if name = "index" then some (.ofInt i)
      else (extra.reverse.lookup name).or (data.get? name) := by
  rw [elementData, NameMap.get?_insertAll, List.reverse_append]
  simp only [List.reverse_cons, List.reverse_nil, List.nil_append, List.cons_append,
    Entries.lookup_cons]
  split
  · rfl
  · split
    · rfl
    · split <;> rfl

section
variable {call : Call} {v : Value} (hv : call.param? 0 = some v)
include hv

theorem each_of_elements {items : List Value} (h : v.elements? = some items) (hne : items ≠ []) :
    eachHelper call = .renderEach .main (elementScopes call.data items) "" := by
  have hfilter : (some items).filter (!·.isEmpty) = some items := by simpa using hne
  simp only [eachHelper, hv, Option.getD_some, h, hfilter]

theorem each_of_entries (hnone : ∀ items ∈ v.elements?, items = [])
    {entries : List (String × Value)} (h : v.entries? = some entries) (hne : entries ≠ []) :
    eachHelper call = .renderEach .main (entryScopes call.data entries) "" := by
  have helements : v.elements?.filter (!·.isEmpty) = none := by
    simpa [Option.filter_eq_none_iff] using hnone
  have hfilter : (some entries).filter (!·.isEmpty) = some entries := by simpa using hne
  simp only [eachHelper, hv, Option.getD_some, helements, h, hfilter]

theorem each_of_empty (hnone : ∀ items ∈ v.elements?, items = [])
    (hempty : ∀ entries ∈ v.entries?, entries = []) : eachHelper call = .branch call .inverse := by
  have helements : v.elements?.filter (!·.isEmpty) = none := by
    simpa [Option.filter_eq_none_iff] using hnone
  have hentries : v.entries?.filter (!·.isEmpty) = none := by
    simpa [Option.filter_eq_none_iff] using hempty
  simp only [eachHelper, hv, Option.getD_some, helements, hentries]

end

end Builtin

section
variable {t : Template} {f : String → Value → Render String} {n : Nat} {s : Scope} {cs : Contexts}
  {path : Path} {name : String} {e : Expression} {found : Option Value}

theorem Render.Visits.of_run {m m' : Render String} {ms : List (Render String)}
    {first : List Event} (h : Visits cs [] ms m)
    (hrun : m'.run cs = { m.run cs with events := first ++ (m.run cs).events }) :
    Visits cs first ms m' where
  all hall := by
    rw [hrun, h.all hall]
    rfl
  fault heq hbefore hfails := by
    rw [hrun, h.fault heq hbefore hfails]
    rfl

/-- A block of `each` calls the helper with the value of its parameter. -/
theorem run_each_block (hhead : t.headed cs (some path) = some (name, Builtin.eachHelper))
    (hread : (s.read e).result = .ok found) (main inverse : Program) :
    let m := (Builtin.eachHelper
      (s.blockCall name [found.getD .null] [] main inverse)).perform
        (t.blockMeans f n s main inverse)
    ((t.rendererIn f n).statement s (.block path ⟨[e], {}⟩ main inverse)).run cs =
      { m.run cs with
        events := t.headQuestions cs (some path) ++ s.readEvents [e] ++ (m.run cs).events } := by
  intro m
  have hrefusal : t.refusal? cs n (.block path ⟨[e], {}⟩ main inverse) = none := by
    simp [Template.refusal?, hhead]
  have hvalues : s.ReadsTo [e] [found.getD .null] := .cons ⟨found, hread, rfl⟩ .nil
  have hbody : t.body cs f n s (.block path ⟨[e], {}⟩ main inverse) [found.getD .null] = m := by
    rw [Template.body, hhead]
    rfl
  have hrun := (t.readsFirst f n s cs hrefusal).all hvalues
  rw [hbody] at hrun
  rw [hrun, List.append_assoc]
  rfl

/-- A block for which `each` takes some scopes has its section rendered for these. -/
theorem visits_each_block (hhead : t.headed cs (some path) = some (name, Builtin.eachHelper))
    (hread : (s.read e).result = .ok found) {main inverse : Program}
    {scopes : List (Value × PrivateData)}
    (hcall : Builtin.eachHelper (s.blockCall name [found.getD .null] [] main inverse) =
      .renderEach .main scopes "") :
    Render.Visits cs (t.headQuestions cs (some path) ++ s.readEvents [e])
      (Action.sections (t.blockMeans f n s main inverse) .main scopes)
      ((t.rendererIn f n).statement s (.block path ⟨[e], {}⟩ main inverse)) := by
  have hvisits := Action.visits_renderEach (t.blockMeans f n s main inverse) .main scopes cs
  rw [← hcall] at hvisits
  exact hvisits.of_run (run_each_block hhead hread main inverse)

/-- A block for which `each` has nothing to visit is that of its inverse section. -/
theorem run_each_block_empty (hhead : t.headed cs (some path) = some (name, Builtin.eachHelper))
    (hread : (s.read e).result = .ok found) {main inverse : Program}
    (hcall : Builtin.eachHelper (s.blockCall name [found.getD .null] [] main inverse) =
      .branch (s.blockCall name [found.getD .null] [] main inverse) .inverse) :
    let inside := ((t.rendererIn f n).program (s.child s.value s.data) inverse).run cs
    ((t.rendererIn f n).statement s (.block path ⟨[e], {}⟩ main inverse)).run cs =
      { inside with
        events := t.headQuestions cs (some path) ++ s.readEvents [e] ++ inside.events } := by
  have hbranch : (Builtin.eachHelper (s.blockCall name [found.getD .null] [] main inverse)).perform
      (t.blockMeans f n s main inverse) =
        (t.rendererIn f n).program (s.child s.value s.data) inverse := by
    rw [hcall, Action.branch, Action.perform_renderThen]
    exact bind_pure _
  have hrun := run_each_block (f := f) (n := n) hhead hread main inverse
  rwa [hbranch] at hrun

theorem sections_elementScopes (data : PrivateData) (items : List Value) (main inverse : Program) :
    Action.sections (t.blockMeans f n s main inverse) .main (Builtin.elementScopes data items) =
      items.mapIdx fun i item => (t.rendererIn f n).program
        (s.child item (Builtin.elementData data [] i items.length)) main := by
  rw [Action.sections, Builtin.elementScopes, List.map_map, List.mapIdx_eq_zipIdx_map]
  rfl

theorem sections_entryScopes (data : PrivateData) (entries : List (String × Value))
    (main inverse : Program) :
    Action.sections (t.blockMeans f n s main inverse) .main (Builtin.entryScopes data entries) =
      entries.mapIdx fun i entry => (t.rendererIn f n).program (s.child entry.2
        (Builtin.elementData data [("key", .string entry.1)] i entries.length)) main := by
  rw [Action.sections, Builtin.entryScopes, List.map_map, List.mapIdx_eq_zipIdx_map]
  rfl

/-- Iteration visits all elements, once and in order. Where a block calls `each` with an expression
that is read to a value:
* If the value is a sequence with any elements, the main section is rendered for each of these in
  turn, in a scope inside with the element as value. If one fails, the block fails with its error,
  and the later ones are not rendered.
* If it is a mapping with any entries, and no sequence with any elements, the same is done for the
  entries in their order, which for an object is that of its keys.
* Else the inverse section is rendered in a scope inside with the same value and data.
* The private data of an element are its place, and the key of an entry; all other names stand for
  what they stand for outside.
* What follows the block is rendered in the scope of the block. -/
theorem each_in_order (hhead : t.headed cs (some path) = some (name, Builtin.eachHelper))
    (hread : (s.read e).result = .ok found) (main inverse : Program) :
    let v := found.getD .null
    let r := t.rendererIn f n
    let block := Statement.block path ⟨[e], {}⟩ main inverse
    let first := t.headQuestions cs (some path) ++ s.readEvents [e]
    (∀ items, v.elements? = some items → items ≠ [] → Render.Visits cs first
      (items.mapIdx fun i item =>
        r.program (s.child item (Builtin.elementData s.data [] i items.length)) main)
      (r.statement s block)) ∧
    (∀ entries, (∀ items ∈ v.elements?, items = []) → v.entries? = some entries → entries ≠ [] →
      Render.Visits cs first
        (entries.mapIdx fun i entry => r.program (s.child entry.2
          (Builtin.elementData s.data [("key", .string entry.1)] i entries.length)) main)
        (r.statement s block)) ∧
    ((∀ items ∈ v.elements?, items = []) → (∀ entries ∈ v.entries?, entries = []) →
      let inside := (r.program (s.child s.value s.data) inverse).run cs
      (r.statement s block).run cs = { inside with events := first ++ inside.events }) ∧
    (∀ ms ds, (∃ texts es events, Render.InTurn ms ds texts es events) ∨
      ∃ before failing after texts es events error fs last, ms = before ++ failing :: after ∧
        Render.InTurn before ds texts es events ∧ failing.run es = ⟨.error error, fs, last⟩) ∧
    (∀ extra i n key, (Builtin.elementData s.data extra i n).get? key =
      if key = "last" then some (.bool (i + 1 == n))
      else if key = "first" then some (.bool (i == 0))
      else if key = "index" then some (.ofInt i)
      else (extra.reverse.lookup key).or (s.data.get? key)) ∧
    (∀ pairs, ∃ entries, (Value.ofPairs pairs).entries? = some entries ∧
      Entries.Sorted entries ∧ ∀ key, entries.lookup key = pairs.reverse.lookup key) ∧
    (∀ rest, r.program s (block :: rest) = (r.statement s block).append (r.program s rest)) := by
  intro v r block first
  let call := s.blockCall name [v] [] main inverse
  have hparam : call.param? 0 = some v := rfl
  refine ⟨fun items hitems hne => ?_, fun entries hnone hentries hne => ?_, fun hnone hempty => ?_,
    Render.inTurn_or_fault, Builtin.get?_elementData s.data, fun pairs => ?_,
    fun rest => r.program_cons s block rest⟩
  · have hcall := Builtin.each_of_elements hparam hitems hne
    rw [← sections_elementScopes]
    exact visits_each_block hhead hread hcall
  · have hcall := Builtin.each_of_entries hparam hnone hentries hne
    rw [← sections_entryScopes]
    exact visits_each_block hhead hread hcall
  · exact run_each_block_empty hhead hread (Builtin.each_of_empty hparam hnone hempty)
  · refine ⟨_, rfl, Entries.Sorted.insertAll .nil pairs, fun key => ?_⟩
    rw [Entries.ofList, Entries.lookup_insertAll, List.lookup_nil, Option.or_none]

end

/-- A host object that is an empty sequence and a mapping is visited as a mapping, entry by entry in
its own order, where private data from outside can still be read. -/
theorem each_in_order_pairs :
    let host : Host Value :=
      { identity := 0, typeName := "Pairs", sequence := some []
        mapping := some [("b", .string "x"), ("a", .string "y"), ("b", .string "z")] }
    let shown (steps : List PathStep) : Statement := .tag (.path ⟨steps, ""⟩) {} false
    let main := [shown [.datum "key"], shown [.datum "outer"], shown [.this]]
    let s := (Scope.root (.object [("h", .host host)])).withData ((∅ : PrivateData).insert "outer"
      (.string "!"))
    let t : Template := { source := "", own := .global }
    let f := Template.standAlone 0
    let block := Statement.block ⟨[.field "each"], "each"⟩ ⟨[.path ⟨[.field "h"], "h"⟩], {}⟩ main []
    ((t.rendererIn f 0).statement s block).run .empty = ⟨.ok "b!xa!yb!z", .empty, []⟩ := by
  intro host shown main s t f block
  have hread : (s.read (.path ⟨[.field "h"], "h"⟩)).result = .ok (some (.host host)) := rfl
  have hhead : t.headed .empty (some ⟨[.field "each"], "each"⟩) =
      some ("each", Builtin.eachHelper) := rfl
  obtain ⟨-, hentries, -⟩ := each_in_order (f := f) (n := 0) hhead hread main []
  have hempty : ∀ items ∈ (Value.host host).elements?, items = [] := by
    rintro items ⟨⟩
    rfl
  have hvisits := hentries _ hempty rfl (by simp)
  have hentry (k x : String) (i : Nat) : (t.rendererIn f 0).program (s.child (.string x)
      (Builtin.elementData s.data [("key", .string k)] i 3)) main =
        pure (k ++ ("!" ++ (x ++ ""))) := by
    let u := s.child (.string x) (Builtin.elementData s.data [("key", .string k)] i 3)
    have hkey : u.resolve [.datum "key"] = pure (some (.string k)) := by
      rw [u.resolve_datum]
      exact congrArg pure (Builtin.get?_elementData _ _ _ _ _)
    have houter : u.resolve [.datum "outer"] = pure (some (.string "!")) := by
      rw [u.resolve_datum]
      exact congrArg pure ((Builtin.get?_elementData _ _ _ _ _).trans rfl)
    have hthis : u.resolve [.this] = pure (some (.string x)) := rfl
    have hshown (steps : List PathStep) {found : Option Value}
        (hname : Path.helperName? ⟨steps, ""⟩ = none) (h : u.resolve steps = pure found) :
        (t.rendererIn f 0).statement u (shown steps) = pure (found.elim "" Value.text) :=
      Renderer.statement_shown _ hname h false
    simp only [main, Renderer.program]
    rw [hshown [.datum "key"] rfl hkey, hshown [.datum "outer"] rfl houter, hshown [.this] rfl hthis]
    simp only [pure_bind, Option.elim_some, Value.text]
  exact hvisits.all (.cons (congrArg (Render.run · _) (hentry "b" "x" 0))
    (.cons (congrArg (Render.run · _) (hentry "a" "y" 1))
      (.cons (congrArg (Render.run · _) (hentry "b" "z" 2)) .nil)))

end Stencil
