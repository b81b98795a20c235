import Stencil.Proofs.Iteration
import Stencil.Proofs.Positions
import Stencil.Proofs.Words

/-!
Iteration and lookup agree. Inside of `each`, the place of an element leads back to it in the array
that is visited, and its key in an object.
-/
namespace Stencil

/-- The block that visits a field. -/
def eachBlock (field : String) (main : Program) : Statement :=
  .block ⟨[.field "each"], "each"⟩ ⟨[.path ⟨[.field field], "[" ++ field ++ "]"⟩], {}⟩ main []

/-- The tag that looks up a private datum in a field of the scope outside. -/
def lookupTag (field datum : String) : Statement :=
  .tag (.path ⟨[.field "lookup"], "lookup"⟩)
    ⟨[.path ⟨[.parent, .field field], "../[" ++ field ++ "]"⟩,
      .path ⟨[.datum datum], "@" ++ datum⟩], {}⟩ true

def lookupText (field datum : String) : String :=
  "\x7b\x7blookup ../[" ++ field ++ "] @" ++ datum ++ "\x7d\x7d"

def thisTag : Statement := .tag (.path ⟨[.this], "this"⟩) {} true

/-! Texts. -/

section
variable {field : String} (h : ']' ∉ field.toList)
include h

open Written

theorem readsWord_bracketed : ReadsWord (.path ⟨[.field field], "[" ++ field ++ "]"⟩)
    ('[' :: field.toList ++ [']']) := by
  have hsource : "[" ++ field ++ "]" = String.ofList (stepText (.field field)) := by
    rw [← String.toList_inj]
    simp [stepText]
  have hpath : WritableExpression (.path ⟨[.field field], "[" ++ field ++ "]"⟩) := by
    rw [hsource]
    exact writablePath_plain rfl h
  exact readsWord_expressionText hpath

theorem readsWord_outside : ReadsWord (.path ⟨[.parent, .field field], "../[" ++ field ++ "]"⟩)
    ("../[".toList ++ field.toList ++ [']']) := by
  have hpath : WritableExpression (.path ⟨[.parent, .field field], "../[" ++ field ++ "]"⟩) :=
    { nonempty := by simp
      inOrder := ⟨1, none, [.field field], rfl, by simp [isPlain]⟩
      names := by simpa [stepName] using h
      source := by
        rw [← String.toList_inj]
        simp [pathText, isDatum, stepsText, stepText] }
  exact readsWord_expressionText hpath

/-- The head of the block that visits a field. -/
def eachHead : HeadText :=
  have heach : ReadsWord (.path ⟨[.field "each"], "each"⟩) ['e', 'a', 'c', 'h'] :=
    readsWord_field (by decide) (List.all_eq_true.mp (by decide))
      (fun _ => numeral?_eq_none (by decide) (by decide) _) (by decide)
  .ofWords heach (.cons (readsWord_bracketed h) .nil)

theorem parsesTo_eachBlock (x : SectionText) :
    ParsesTo ("\x7b\x7b#each [" ++ field ++ "]\x7d\x7d" ++ x.text ++ "\x7b\x7b/each\x7d\x7d")
      [eachBlock field x.program] := by
  have hopening : (eachHead h).opening = "\x7b\x7b#each [" ++ field ++ "]\x7d\x7d" := by
    rw [← String.toList_inj]
    simp [eachHead, HeadText.ofWords, HeadText.opening]
  have hread := (eachHead h).parsesTo_block x
  rw [hopening] at hread
  exact hread

theorem plainTag_lookup {datum : String} (hdatum : datum ≠ "")
    (hname : ∀ c ∈ datum.toList, isNameChar c) :
    PlainTag (lookupText field datum).toList (.statement (lookupTag field datum)) := by
  have hhead : ReadsWord (.path ⟨[.field "lookup"], "lookup"⟩) ['l', 'o', 'o', 'k', 'u', 'p'] :=
    readsWord_field (by decide) (List.all_eq_true.mp (by decide))
      (fun _ => numeral?_eq_none (by decide) (by decide) _) (by decide)
  have hmark : ReadsWord (.path ⟨[.datum datum], "@" ++ datum⟩) ('@' :: datum.toList) := by
    have hsource : "@" ++ datum = String.ofList ('@' :: datum.toList) := by
      rw [← String.toList_inj]
      simp
    have hread := readsWord_datum (mt String.toList_eq_nil_iff.mp hdatum) hname
    rwa [String.ofList_toList, ← hsource] at hread
  have htag := plainTag_words hhead (by rintro _ ⟨⟩; decide)
    (.cons (readsWord_outside h) (.cons hmark .nil))
  convert htag using 1
  · -- not by `simp [lookupText]`, which compares the texts by evaluation
    delta lookupText
    simp
  · rfl

end

theorem plainTag_this : PlainTag "\x7b\x7bthis\x7d\x7d".toList (.statement thisTag) := by
  have hpath : Written.WritableExpression (.path ⟨[.this], "this"⟩) :=
    Written.writablePath_plain rfl (by decide)
  have hthis : ReadsWord (.path ⟨[.this], "this"⟩) ['t', 'h', 'i', 's'] :=
    readsWord_expressionText hpath
  exact plainTag_words hthis (by rintro _ ⟨⟩; decide) .nil

/-! Renderings. -/

/-- Two statements are rendered to one text in a scope, and change no context. -/
def Renderer.SameText (r : Renderer) (u : Scope) (cs : Contexts) (a b : Statement) : Prop :=
  ∃ text events more, (r.statement u a).run cs = ⟨.ok text, cs, events⟩ ∧
    (r.statement u b).run cs = ⟨.ok text, cs, more⟩

/-- The name of a helper stands for the one that every template has. -/
def Template.HasBuiltin (t : Template) (cs : Contexts) (name : String) : Prop :=
  t.headed cs (some ⟨[.field name], name⟩) = (builtin? name).map (name, ·)

section
variable {t : Template} {f : String → Value → Render String} {n : Nat} {cs : Contexts}

theorem Template.run_shown (t : Template) (cs : Contexts) (escaped : Bool) (text : String) :
    ∃ shown events, (t.shown escaped text).run cs = ⟨.ok shown, cs, events⟩ := by
  cases escaped with
  | true => exact ⟨_, _, t.run_escape cs text⟩
  | false => exact ⟨text, [], rfl⟩

/-- A call of the helper `lookup` shows what the key stands for in the value. -/
theorem Template.run_lookup {u : Scope} {path : Path} {name : String} {a b : Expression}
    {target key : Value} {found : Option Value}
    (hhead : t.headed cs (some path) = some (name, Builtin.lookupHelper))
    (ha : (u.read a).result = .ok (some target)) (hb : (u.read b).result = .ok (some key))
    (haccess : target.access key.text = pure found) (escaped : Bool) :
    let shown := (t.shown escaped (found.elim "" Value.text)).run cs
    ((t.rendererIn f n).statement u (.tag (.path path) ⟨[a, b], {}⟩ escaped)).run cs =
      { shown with
        events := t.headQuestions cs (some path) ++ (u.readEvents [a, b] ++ shown.events) } := by
  intro shown
  let tag : Statement := .tag (.path path) ⟨[a, b], {}⟩ escaped
  have hrefusal : t.refusal? cs n tag = none := by simp [tag, refusal?, Expression.asPath?, hhead]
  have hreads : t.expressionsRead cs tag = [a, b] := by
    simp [tag, expressionsRead, Expression.asPath?, hhead, Arguments.expressions]
  have hvalues : u.ReadsTo [a, b] [target, key] :=
    .cons ⟨some target, ha, rfl⟩ (.cons ⟨some key, hb, rfl⟩ .nil)
  have htext : t.tagBody cs f u (.path path) ⟨[a, b], {}⟩ [target, key] =
      pure (found.elim "" Value.text) := by
    rw [tagBody, Expression.asPath?, hhead]
    change Render.attemptReading (target.access key.text) >>= _ = _
    rw [haccess]
    cases found <;> rfl
  have hbody : t.body cs f n u tag [target, key] = t.shown escaped (found.elim "" Value.text) := by
    rw [body, htext, pure_bind]
    rfl
  have hrun := (t.readsFirst f n u cs hrefusal).all (hreads ▸ hvalues)
  rwa [hreads, hbody] at hrun

theorem Scope.follow_field (level : Level) (v : Value) (field : String) :
    follow level v [.field field] = v.access field := by
  change (v.access field >>= fun found => _) = _
  conv_rhs => rw [← bind_pure (v.access field)]
  congr 1
  funext found
  cases found <;> rfl

theorem Scope.resolve_field (s : Scope) (field : String) :
    s.resolve [.field field] = s.value.access field := follow_field s.level s.value field

theorem Scope.result_read_field {s : Scope} {field : String} {v : Value}
    (h : (s.value.access field).result = .ok (some v)) (source : String) :
    (s.read (.path ⟨[.field field], source⟩)).result = .ok (some v) := by
  rw [read, resolve_field, h]

theorem Scope.resolve_field_outside (s : Scope) (item : Value) (data : PrivateData)
    (field : String) : (s.child item data).resolve [.parent, .field field] =
      s.resolve [.field field] := rfl

section
variable {s : Scope} {field : String} {v : Value}
  (hfield : (s.value.access field).result = .ok (some v))
include hfield

/-- Where a private datum of an element is a key for it, looking the key up shows the element. -/
theorem Template.sameText_lookup (hlookup : t.HasBuiltin cs "lookup") {datum : String}
    {item key : Value} {data : PrivateData} (hdatum : data.get? datum = some key)
    (haccess : v.access key.text = pure (some item)) :
    (t.rendererIn f n).SameText (s.child item data) cs (lookupTag field datum) thisTag := by
  have hv : ((s.child item data).read
      (.path ⟨[.parent, .field field], "../[" ++ field ++ "]"⟩)).result = .ok (some v) := by
    rw [Scope.read, Scope.resolve_field_outside]
    exact Scope.result_read_field hfield field
  have hkey : ((s.child item data).read (.path ⟨[.datum datum], "@" ++ datum⟩)).result =
      .ok (some key) := by
    rw [Scope.read, Scope.resolve_datum]
    exact congrArg Except.ok hdatum
  have hrun := t.run_lookup (f := f) (n := n) hlookup hv hkey haccess true
  have hitem : (s.child item data).resolve [.this] = pure (some item) := rfl
  have hthis : (t.rendererIn f n).statement (s.child item data) thisTag =
      t.shown true item.text := by
    rw [thisTag, Renderer.statement_shown _ rfl hitem, t.rendererIn_template, Option.elim_some]
  obtain ⟨shown, events, hshown⟩ := t.run_shown cs true item.text
  rw [Option.elim_some, hshown] at hrun
  exact ⟨shown, _, events, hrun, by rw [hthis, hshown]⟩

end

/-- Sections that show the same for every scope show the same in turn. -/
theorem inTurn_sameText {s : Scope} {a b : Statement} {scopes : List (Value × PrivateData)}
    (h : ∀ scope ∈ scopes, (t.rendererIn f n).SameText (s.child scope.1 scope.2) cs a b) :
    ∃ texts events more,
      Render.InTurn (Action.sections (t.blockMeans f n s [a] []) .main scopes) cs texts cs events ∧
      Render.InTurn (Action.sections (t.blockMeans f n s [b] []) .main scopes) cs texts cs
        more := by
  induction scopes with
  | nil => exact ⟨[], [], [], .nil, .nil⟩
  | cons scope rest ih =>
    obtain ⟨texts, events, more, hrest, hrest'⟩ := ih fun other hother => h other (.tail _ hother)
    obtain ⟨text, here, here', ha, hb⟩ := h scope (.head _)
    rw [← program_singleton] at ha hb
    exact ⟨text :: texts, here ++ events, here' ++ more, .cons ha hrest, .cons hb hrest'⟩

section
variable {s : Scope} {field : String} {v : Value}
  (hfield : (s.value.access field).result = .ok (some v)) (heach : t.HasBuiltin cs "each")
include hfield heach

/-- Blocks of `each` are rendered to one text if their sections are for every element. -/
theorem Template.sameText_each {scopes : List (Value × PrivateData)}
    (hcall : ∀ main, Builtin.eachHelper (s.blockCall "each" [v] [] main []) =
      .renderEach .main scopes "") {a b : Statement}
    (h : ∀ scope ∈ scopes, (t.rendererIn f n).SameText (s.child scope.1 scope.2) cs a b) :
    (t.rendererIn f n).SameText s cs (eachBlock field [a]) (eachBlock field [b]) := by
  obtain ⟨texts, events, more, ha, hb⟩ := inTurn_sameText h
  have hread := Scope.result_read_field hfield ("[" ++ field ++ "]")
  have hvisits (main : Program) := visits_each_block (f := f) (n := n) heach hread (hcall main)
  exact ⟨_, _, _, (hvisits [a]).all ha, (hvisits [b]).all hb⟩

theorem Template.sameText_each_empty
    (hcall : ∀ main, Builtin.eachHelper (s.blockCall "each" [v] [] main []) =
      .branch (s.blockCall "each" [v] [] main []) .inverse) (a b : Program) :
    (t.rendererIn f n).SameText s cs (eachBlock field a) (eachBlock field b) := by
  have hread := Scope.result_read_field hfield ("[" ++ field ++ "]")
  have hrun (main : Program) := run_each_block_empty (f := f) (n := n) heach hread (hcall main)
  exact ⟨_, _, _, hrun a, hrun b⟩

end

/-! Elements and entries. -/

theorem Builtin.exists_of_mem_elementScopes {data : PrivateData} {items : List Value}
    {scope : Value × PrivateData} (h : scope ∈ elementScopes data items) :
    ∃ i, ∃ hi : i < items.length, scope = (items[i], elementData data [] i items.length) := by
  obtain ⟨⟨item, i⟩, hmem, rfl⟩ := List.mem_map.mp h
  obtain ⟨hi, hitem⟩ := List.getElem?_eq_some_iff.mp (List.mem_zipIdx_iff_getElem?.mp hmem)
  dsimp only at hi hitem
  exact ⟨i, hi, by rw [hitem]⟩

theorem Builtin.exists_of_mem_entryScopes {data : PrivateData} {entries : List (String × Value)}
    {scope : Value × PrivateData} (h : scope ∈ entryScopes data entries) :
    ∃ i key item, (key, item) ∈ entries ∧
      scope = (item, elementData data [("key", .string key)] i entries.length) := by
  obtain ⟨⟨⟨key, item⟩, i⟩, hmem, rfl⟩ := List.mem_map.mp h
  exact ⟨i, key, item, List.mem_of_getElem? (List.mem_zipIdx_iff_getElem?.mp hmem), rfl⟩

theorem Entries.Sorted.lookup_of_mem {α : Type} {entries : List (String × α)} (h : Sorted entries)
    {key : String} {a : α} (hmem : (key, a) ∈ entries) : entries.lookup key = some a := by
  obtain ⟨before, after, rfl⟩ := List.append_of_mem hmem
  obtain ⟨-, -, hbefore⟩ := List.pairwise_append.mp h
  refine List.lookup_eq_some_iff.mpr ⟨before, after, rfl, fun entry hentry => ?_⟩
  have hlt : entry.1 < key := hbefore entry hentry (key, a) (.head _)
  exact bne_iff_ne.mpr fun heq => String.lt_irrefl key (heq ▸ hlt)

section
variable {s : Scope} {field : String}

theorem Template.sameText_index {items : List Value}
    (hfield : (s.value.access field).result = .ok (some (.array items)))
    (hlength : items.length < 2 ^ 63) (hlookup : t.HasBuiltin cs "lookup")
    {scope : Value × PrivateData} (hscope : scope ∈ Builtin.elementScopes s.data items) :
    (t.rendererIn f n).SameText (s.child scope.1 scope.2) cs (lookupTag field "index") thisTag := by
  obtain ⟨i, hi, rfl⟩ := Builtin.exists_of_mem_elementScopes hscope
  have hindex : (Builtin.elementData s.data [] i items.length).get? "index" = some (.ofInt i) := by
    simp [Builtin.get?_elementData]
  have hrange : Number.intRange i := ⟨by simp, by simp only [Int64.toInt_maxValue]; omega⟩
  exact t.sameText_lookup hfield hlookup hindex (Value.access_text_ofInt hi hrange)

theorem Template.sameText_key {entries : List (String × Value)}
    (hfield : (s.value.access field).result = .ok (some (.object entries)))
    (hsorted : Entries.Sorted entries) (hlookup : t.HasBuiltin cs "lookup")
    {scope : Value × PrivateData} (hscope : scope ∈ Builtin.entryScopes s.data entries) :
    (t.rendererIn f n).SameText (s.child scope.1 scope.2) cs (lookupTag field "key") thisTag := by
  obtain ⟨i, key, item, hmem, rfl⟩ := Builtin.exists_of_mem_entryScopes hscope
  have hkey : (Builtin.elementData s.data [("key", .string key)] i entries.length).get? "key" =
      some (.string key) := by
    simp [Builtin.get?_elementData]
  have hitem : (Value.object entries).access (Value.string key).text = pure (some item) := by
    rw [Value.text]
    exact congrArg pure (hsorted.lookup_of_mem hmem)
  exact t.sameText_lookup hfield hlookup hkey hitem

end

/-- Iteration and lookup agree.
* Whatever stands around them in the section of a block that visits a field, tags that look up the
  place or the key in the field outside are read as such.
* Where the field holds an array of less than `2 ^ 63` elements, looking up the place of any of them
  shows what the element itself does; for an object it is the key of an entry. So blocks that show
  the ones and the others are rendered to one text.
* The text of an integer leads to the element of its number in an array, and to none if it is
  negative. So does any run of ASCII digits below the length, to the element of its value; all other
  keys lead nowhere. -/
theorem iteration_agrees_with_lookup (field : String) :
    (']' ∉ field.toList → ∀ x y : SectionText, ∀ tag shown,
      (tag, shown) ∈ [(lookupText field "index", lookupTag field "index"),
        (lookupText field "key", lookupTag field "key"),
        ("\x7b\x7bthis\x7d\x7d", thisTag)] →
      ParsesTo ("\x7b\x7b#each [" ++ field ++ "]\x7d\x7d" ++ (x.text ++ tag ++ y.text) ++
          "\x7b\x7b/each\x7d\x7d")
        [eachBlock field (x.program ++ shown :: y.program)]) ∧
    (∀ (t : Template) f n (s : Scope) v, (s.value.access field).result = .ok (some v) →
      let r := t.rendererIn f n
      (∀ items, v = .array items → items.length < 2 ^ 63 → ∀ cs, t.HasBuiltin cs "lookup" →
        (∀ scope ∈ Builtin.elementScopes s.data items,
          r.SameText (s.child scope.1 scope.2) cs (lookupTag field "index") thisTag) ∧
        (t.HasBuiltin cs "each" →
          r.SameText s cs (eachBlock field [lookupTag field "index"])
            (eachBlock field [thisTag]))) ∧
      (∀ entries, v = .object entries → Entries.Sorted entries → ∀ cs, t.HasBuiltin cs "lookup" →
        (∀ scope ∈ Builtin.entryScopes s.data entries,
          r.SameText (s.child scope.1 scope.2) cs (lookupTag field "key") thisTag) ∧
        (t.HasBuiltin cs "each" →
          r.SameText s cs (eachBlock field [lookupTag field "key"])
            (eachBlock field [thisTag])))) ∧
    (∀ items,
      (∀ n : Int64, (Value.array items).access (Value.number (.int n)).text =
        pure (if 0 ≤ n.toInt then items[n.toInt.toNat]? else none)) ∧
      (∀ key, (∀ i < items.length, ¬ Value.Spells key i) →
        (Value.array items).access key = pure none)) ∧
    (∀ n a b i j, n < 2 ^ 63 → Value.Spells a i → Value.Spells b j → i < n → j < n →
      ((∀ items, items.length = n →
        (Value.array items).access a = (Value.array items).access b) ↔ i = j)) := by
  refine ⟨fun hfield x y tag shown htag => ?_, fun t f n s v hfield => ⟨?_, ?_⟩,
    fun items => ⟨Value.access_text_int items, fun key hkey => Value.access_of_not_spells hkey⟩,
    fun n a b i j hn ha hb hi hj => Value.spells_same_iff ha hb hi hj (hn.le.trans (by decide))⟩
  · have hplain : PlainTag tag.toList (.statement shown) ∧ shown.Inline := by
      simp only [List.mem_cons, Prod.mk.injEq, List.not_mem_nil, or_false] at htag
      rcases htag with ⟨rfl, rfl⟩ | ⟨rfl, rfl⟩ | ⟨rfl, rfl⟩
      · exact ⟨plainTag_lookup hfield (by decide) (List.all_eq_true.mp (by decide)), trivial⟩
      · exact ⟨plainTag_lookup hfield (by decide) (List.all_eq_true.mp (by decide)), trivial⟩
      · exact ⟨plainTag_this, trivial⟩
    exact parsesTo_eachBlock hfield (x.between y hplain.1 hplain.2)
  · rintro items rfl hlength cs hlookup
    refine ⟨fun scope hscope => t.sameText_index hfield hlength hlookup hscope, fun heach => ?_⟩
    cases items with
    | nil =>
      have helements : ∀ items ∈ (Value.array []).elements?, items = [] := by
        rintro _ ⟨⟩
        rfl
      have hentries : ∀ entries ∈ (Value.array []).entries?, entries = [] := nofun
      exact t.sameText_each_empty hfield heach
        (fun main => Builtin.each_of_empty rfl helements hentries) _ _
    | cons item rest =>
      exact t.sameText_each hfield heach
        (fun main => Builtin.each_of_elements rfl rfl (List.cons_ne_nil item rest))
        fun scope hscope => t.sameText_index hfield hlength hlookup hscope
  · rintro entries rfl hsorted cs hlookup
    have helements : ∀ items ∈ (Value.object entries).elements?, items = [] := nofun
    refine ⟨fun scope hscope => t.sameText_key hfield hsorted hlookup hscope, fun heach => ?_⟩
    cases entries with
    | nil =>
      have hentries : ∀ entries ∈ (Value.object []).entries?, entries = [] := by
        rintro _ ⟨⟩
        rfl
      exact t.sameText_each_empty hfield heach
        (fun main => Builtin.each_of_empty rfl helements hentries) _ _
    | cons entry rest =>
      exact t.sameText_each hfield heach
        (fun main => Builtin.each_of_entries rfl helements rfl (List.cons_ne_nil entry rest))
        fun scope hscope => t.sameText_key hfield hsorted hlookup hscope

end

/-- A list under a name with a space, and keys for its second element. -/
theorem iteration_agrees_with_lookup_list :
    let items : List Value := [.string "<", .number (.int 7)]
    let s := Scope.root (.object [("x y", .array items)])
    let t : Template := { source := "", own := .global }
    let r := t.rendererIn (Template.standAlone 0) 0
    let block := eachBlock "x y" [lookupTag "x y" "index"]
    parse "\x7b\x7b#each [x y]\x7d\x7d\x7b\x7blookup ../[x y] @index\x7d\x7d\x7b\x7b/each\x7d\x7d" =
        .ok [block] ∧
      ((r.statement s block).run .empty).result = .ok "&lt;7" ∧
      (Value.array items).access "01" = (Value.array items).access "1" ∧
      (Value.array items).access "+1" = pure none := by
  intro items s t r block
  obtain ⟨htexts, hblocks, haccess, hsame⟩ := iteration_agrees_with_lookup "x y"
  let x : SectionText := ⟨"", [], Written.parse_empty, by decide, by decide⟩
  refine ⟨?_, ?_, ?_, (haccess items).2 "+1" fun i _ hspells => ?_⟩
  · have hparse := htexts (by decide) x x _ _ (.head _)
    rw [ParsesTo, if_pos (by decide)] at hparse
    exact hparse
  · obtain ⟨-, heach⟩ := (hblocks t (Template.standAlone 0) 0 s (.array items) rfl).1 items rfl
      (by decide) .empty rfl
    obtain ⟨text, events, more, hlookup, hthis⟩ := heach rfl
    have htext : ((r.statement s (eachBlock "x y" [thisTag])).run .empty).result = .ok "&lt;7" := by
      decide +kernel
    rw [hlookup, ← htext, hthis]
  · have h01 : Value.Spells "01" 1 := ⟨by decide, List.all_eq_true.mp (by decide), by decide⟩
    have h1 : Value.Spells "1" 1 := ⟨by decide, List.all_eq_true.mp (by decide), by decide⟩
    exact (hsame 2 "01" "1" 1 1 (by decide) h01 h1 (by decide) (by decide)).mpr rfl items rfl
  · exact absurd (hspells.digits '+' (by decide)) (by decide)

end Stencil
