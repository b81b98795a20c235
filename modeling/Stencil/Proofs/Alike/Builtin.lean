import Stencil.Proofs.Alike.Scope

/-!
The helpers of every template compared. Called alike, with means that are alike, they are alike.
-/
namespace Stencil

/-- The helpers of every template, one by one. -/
@[elab_as_elim]
theorem builtin?_cases
    {motive : (name : String) → (helper : Helper) → builtin? name = some helper → Prop}
    (each : motive "each" Builtin.eachHelper rfl) (ifHelper : motive "if" Builtin.ifHelper rfl)
    (localize : motive "localize" Builtin.localizeHelper rfl)
    (log : motive "log" Builtin.logHelper rfl) (lookup : motive "lookup" Builtin.lookupHelper rfl)
    (unlessHelper : motive "unless" Builtin.unlessHelper rfl)
    (withHelper : motive "with" Builtin.withHelper rfl) (name : String) (helper : Helper)
    (h : builtin? name = some helper) : motive name helper h := by
  have hmem : (name, helper) ∈ Builtin.all := by
    obtain ⟨before, after, hall, -⟩ := List.lookup_eq_some_iff.mp h
    simp [hall]
  simp only [Builtin.all, List.mem_cons, Prod.mk.injEq, List.not_mem_nil, or_false] at hmem
  rcases hmem with ⟨rfl, rfl⟩ | ⟨rfl, rfl⟩ | ⟨rfl, rfl⟩ | ⟨rfl, rfl⟩ | ⟨rfl, rfl⟩ | ⟨rfl, rfl⟩ |
    ⟨rfl, rfl⟩
  · exact each
  · exact ifHelper
  · exact localize
  · exact log
  · exact lookup
  · exact unlessHelper
  · exact withHelper

/-- A relation between texts that concatenation preserves. -/
structure TextRelation (T : String → String → Prop) : Prop where
  empty : T "" ""
  append {a b c d : String} : T a b → T c d → T (a ++ c) (b ++ d)

theorem TextRelation.eq : TextRelation (· = ·) where
  empty := rfl
  append hab hcd := by rw [hab, hcd]

/-- Two calls of one helper with related data. -/
structure CallAlike (V : Value → Value → Prop) (N : String → Prop) (c c' : Call) : Prop where
  name : c.name = c'.name
  context : V c.context c'.context
  data : DataAlike V N c.data c'.data
  params : List.Forall₂ V c.params c'.params
  named : List.Forall₂ (EntryAlike V) c.named c'.named

/-- Means of one template whose sections are alike. -/
structure MeansAlike (waived : RenderError → Prop) (cs ds : Contexts) (V : Value → Value → Prop)
    (N : String → Prop) (T : String → String → Prop) (m n : Means) : Prop where
  template : m.template = n.template
  inSection {v w : Value} {d d' : PrivateData} (which : Section) : V v w → DataAlike V N d d' →
    Render.Alike waived cs ds T (m.inSection which v d) (n.inSection which w d')

/-- The helpers that show nothing but their sections. -/
def sectionHelpers : List String := ["if", "unless", "each", "with", "log"]

namespace Action

variable (means : Means)

@[simp] theorem perform_text (s : String) : (text s).perform means = pure s := rfl

@[simp] theorem perform_fail (e : RenderError) : (fail e).perform means = Render.fail e := rfl

/-- A section, then what is done with its text; an error of the section is that of the whole. -/
theorem perform_renderThen (which : Section) (v : Value) (d : PrivateData)
    (next : String → Action) :
    (renderThen which v d next).perform means =
      means.inSection which v d >>= fun s => (next s).perform means := by
  ext cs
  have hattempt : ((means.inSection which v d).attempt.run cs) =
      { (means.inSection which v d).run cs with
        result := .ok ((means.inSection which v d).run cs).result } := rfl
  rw [renderThen, perform, Render.run_bind_of_ok (by rw [hattempt]), hattempt]
  cases hr : ((means.inSection which v d).run cs).result with
  | ok s => rw [Render.run_bind_of_ok hr]
  | error e => rw [Render.run_bind_of_error hr]; simp [Render.run_fail]

end Action

theorem forall₂_getElem? {α β : Type} {R : α → β → Prop} {xs : List α} {ys : List β}
    (h : List.Forall₂ R xs ys) (i : Nat) : Option.Rel R xs[i]? ys[i]? := by
  induction h generalizing i with
  | nil => exact .none
  | cons hab _ ih =>
    cases i with
    | zero => exact .some hab
    | succ i => simpa using ih i

/-- Positions beside the members of two lists are the same. -/
theorem forall₂_zipIdx {α β : Type} {R : α → β → Prop} {xs : List α} {ys : List β}
    (h : List.Forall₂ R xs ys) (start : Nat) :
    List.Forall₂ (fun a b => R a.1 b.1 ∧ a.2 = b.2) (xs.zipIdx start) (ys.zipIdx start) := by
  induction h generalizing start with
  | nil => exact .nil
  | cons hab _ ih => exact .cons ⟨hab, rfl⟩ (ih (start + 1))

theorem rel_refl {α : Type} {R : α → α → Prop} (h : ∀ a, R a a) (x : Option α) :
    Option.Rel R x x := by
  cases x with
  | none => exact .none
  | some a => exact .some (h a)

theorem rel_filter {α β : Type} {R : α → β → Prop} {x : Option α} {y : Option β}
    (h : Option.Rel R x y) {p : α → Bool} {q : β → Bool} (hpq : ∀ a b, R a b → p a = q b) :
    Option.Rel R (x.filter p) (y.filter q) := by
  cases h with
  | none => exact .none
  | some hab =>
    rw [Option.filter_some, Option.filter_some, hpq _ _ hab]
    split
    · exact .some hab
    · exact .none

theorem rel_any {α β : Type} {R : α → β → Prop} {x : Option α} {y : Option β}
    (h : Option.Rel R x y) {p : α → Bool} {q : β → Bool} (hpq : ∀ a b, R a b → p a = q b) :
    x.any p = y.any q := by
  cases h with
  | none => rfl
  | some hab => exact hpq _ _ hab

theorem rel_getD {α : Type} {R : α → α → Prop} {x y : Option α} (h : Option.Rel R x y) {a : α}
    (ha : R a a) : R (x.getD a) (y.getD a) := by
  cases h with
  | none => exact ha
  | some hab => exact hab

section
variable {waived : RenderError → Prop} {cs ds : Contexts} {V : Value → Value → Prop}
  {N : String → Prop} {T : String → String → Prop} {m n : Means}

section Scopes
variable (hV : Value.Indistinct V) {d d' : PrivateData} (hd : DataAlike V N d d')
include hV hd

theorem elementData_alike (extra : List (String × Value)) (i n : Nat) :
    DataAlike V N (Builtin.elementData d extra i n) (Builtin.elementData d' extra i n) := by
  refine hd.insertAll (List.forall₂_same.mpr fun entry _ => ⟨rfl, hV.refl entry.2⟩)

theorem elementScopes_alike {items items' : List Value} (h : List.Forall₂ V items items') :
    List.Forall₂ (fun a b => V a.1 b.1 ∧ DataAlike V N a.2 b.2) (Builtin.elementScopes d items)
      (Builtin.elementScopes d' items') := by
  rw [Builtin.elementScopes, Builtin.elementScopes, ← h.length_eq, List.forall₂_map_left_iff,
    List.forall₂_map_right_iff]
  apply (forall₂_zipIdx h 0).imp
  rintro ⟨v, i⟩ ⟨w, j⟩ ⟨hv, rfl⟩
  exact ⟨hv, elementData_alike hV hd [] i items.length⟩

theorem entryScopes_alike {entries entries' : List (String × Value)}
    (h : List.Forall₂ (EntryAlike V) entries entries') :
    List.Forall₂ (fun a b => V a.1 b.1 ∧ DataAlike V N a.2 b.2) (Builtin.entryScopes d entries)
      (Builtin.entryScopes d' entries') := by
  rw [Builtin.entryScopes, Builtin.entryScopes, ← h.length_eq, List.forall₂_map_left_iff,
    List.forall₂_map_right_iff]
  apply (forall₂_zipIdx h 0).imp
  rintro ⟨⟨key, v⟩, i⟩ ⟨⟨key', w⟩, j⟩ ⟨⟨hkey, hv⟩, rfl⟩
  obtain rfl : key = key' := hkey
  exact ⟨hv, elementData_alike hV hd [("key", .string key)] i entries.length⟩

end Scopes

section Perform
variable (hT : TextRelation T) (hm : MeansAlike waived cs ds V N T m n) {c c' : Call}
  (hc : CallAlike V N c c')
include hm

theorem alike_branch (which : Section) (hc : CallAlike V N c c') :
    Render.Alike waived cs ds T ((Action.branch c which).perform m)
      ((Action.branch c' which).perform n) := by
  rw [Action.branch, Action.branch, Action.perform_renderThen, Action.perform_renderThen]
  exact (hm.inSection which hc.context hc.data).bind fun a b hab => .pure hab

include hT in
theorem alike_renderEach (which : Section) {scopes scopes' : List (Value × PrivateData)}
    (hs : List.Forall₂ (fun a b => V a.1 b.1 ∧ DataAlike V N a.2 b.2) scopes scopes')
    {before before' : String} (hb : T before before') :
    Render.Alike waived cs ds T ((Action.renderEach which scopes before).perform m)
      ((Action.renderEach which scopes' before').perform n) := by
  induction hs generalizing before before' with
  | nil => exact .pure hb
  | cons hab _ ih =>
    rw [Action.renderEach, Action.renderEach, Action.perform_renderThen, Action.perform_renderThen]
    exact (hm.inSection which hab.1 hab.2).bind fun text text' htext => ih (hT.append hb htext)

end Perform

/-! The helpers. -/

section Helpers
variable (hV : Value.Indistinct V) (hT : TextRelation T) (hm : MeansAlike waived cs ds V N T m n)
  {c c' : Call} (hc : CallAlike V N c c')
include hc

theorem CallAlike.param? (i : Nat) : Option.Rel V (c.param? i) (c'.param? i) :=
  forall₂_getElem? hc.params i

include hV

theorem CallAlike.isTruthy : (c.param? 0).any Value.isTruthy = (c'.param? 0).any Value.isTruthy :=
  rel_any (hc.param? 0) fun _ _ hv => hV.isTruthy hv

include hm

theorem alike_if : Render.Alike waived cs ds T ((Builtin.ifHelper c).perform m)
    ((Builtin.ifHelper c').perform n) := by
  rw [Builtin.ifHelper, Builtin.ifHelper, hc.isTruthy hV]
  exact alike_branch hm _ hc

theorem alike_unless : Render.Alike waived cs ds T ((Builtin.unlessHelper c).perform m)
    ((Builtin.unlessHelper c').perform n) := by
  rw [Builtin.unlessHelper, Builtin.unlessHelper, hc.isTruthy hV]
  exact alike_branch hm _ hc

theorem alike_with : Render.Alike waived cs ds T ((Builtin.withHelper c).perform m)
    ((Builtin.withHelper c').perform n) := by
  have hparam := rel_filter (hc.param? 0) (p := fun v => !v.isNull) (q := fun v => !v.isNull)
    fun _ _ hv => by rw [hV.isNull hv]
  unfold Builtin.withHelper
  generalize (c.param? 0).filter _ = x at hparam ⊢
  generalize (c'.param? 0).filter _ = y at hparam ⊢
  cases hparam with
  | none => exact alike_branch hm .inverse hc
  | some hv =>
    dsimp only
    rw [Action.perform_renderThen, Action.perform_renderThen]
    exact (hm.inSection .main hv hc.data).bind fun a b hab => .pure hab

include hT

theorem alike_each : Render.Alike waived cs ds T ((Builtin.eachHelper c).perform m)
    ((Builtin.eachHelper c').perform n) := by
  have htarget : V ((c.param? 0).getD .null) ((c'.param? 0).getD .null) :=
    rel_getD (hc.param? 0) (hV.refl .null)
  have helements := rel_filter (hV.elements? htarget) (p := fun l => !l.isEmpty)
    (q := fun l => !l.isEmpty) fun a b hab => by cases hab <;> rfl
  have hentries := rel_filter (hV.entries? htarget) (p := fun l => !l.isEmpty)
    (q := fun l => !l.isEmpty) fun a b hab => by cases hab <;> rfl
  unfold Builtin.eachHelper
  dsimp only
  generalize ((c.param? 0).getD .null).elements?.filter _ = x at helements ⊢
  generalize ((c'.param? 0).getD .null).elements?.filter _ = x' at helements ⊢
  generalize ((c.param? 0).getD .null).entries?.filter _ = y at hentries ⊢
  generalize ((c'.param? 0).getD .null).entries?.filter _ = y' at hentries ⊢
  cases helements with
  | some hitems =>
    exact alike_renderEach hT hm .main (elementScopes_alike hV hc.data hitems) hT.empty
  | none =>
    cases hentries with
    | some hitems =>
      exact alike_renderEach hT hm .main (entryScopes_alike hV hc.data hitems) hT.empty
    | none => exact alike_branch hm .inverse hc

omit hV hm hc in
theorem alike_log : Render.Alike waived cs ds T ((Builtin.logHelper c).perform m)
    ((Builtin.logHelper c').perform n) := by
  have hnote (call : Call) (means : Means) (ks : Contexts) :
      ((Builtin.logHelper call).perform means).Keeps ks := by
    refine Render.Keeps.bind (.note ?_) fun _ _ => .pure ""
    exact trivial
  exact .of_keeps (hnote c m cs) (hnote c' n ds) (.ok hT.empty)

omit hT hm in
theorem alike_lookup (hrefl : ∀ x, T x x) :
    Render.Alike waived cs ds T ((Builtin.lookupHelper c).perform m)
      ((Builtin.lookupHelper c').perform n) := by
  have htarget := hc.param? 0
  have hkey := hc.param? 1
  have hname : c.error "expects a value and a key" = c'.error "expects a value and a key" := by
    rw [Call.error, Call.error, hc.name]
  unfold Builtin.lookupHelper
  generalize c.param? 0 = v at htarget ⊢
  generalize c'.param? 0 = v' at htarget ⊢
  generalize c.param? 1 = k at hkey ⊢
  generalize c'.param? 1 = k' at hkey ⊢
  cases htarget with
  | none => rw [hname]; exact .fail _
  | @some target target' htarget =>
    cases hkey with
    | none => rw [hname]; exact .fail _
    | @some key key' hkey =>
      dsimp only
      rw [← hV.text hkey, Action.perform, Action.perform]
      have hread : Render.Alike waived cs ds (Agree (Option.Rel V))
          (Render.attemptReading (target.access key.text))
          (Render.attemptReading (target'.access key.text)) :=
        .of_keeps (Render.keeps_attemptReading (target.allowed_access _) cs)
          (Render.keeps_attemptReading (target'.allowed_access _) ds) (.ok (hV.access htarget _))
      apply hread.bind
      intro found found' hfound
      cases hfound with
      | error e => exact .fail (.hostAccess e)
      | @ok a b hab =>
        have htext : a.elim "" Value.text = b.elim "" Value.text := by
          cases hab with
          | none => rfl
          | some hv => exact hV.text hv
        dsimp only
        rw [htext]
        exact .pure (hrefl _)

omit hT in
theorem alike_localize (hrefl : ∀ x, T x x)
    (hlocalize : ∀ x, ((m.template.localize x).run cs).result =
      ((m.template.localize x).run ds).result) :
    Render.Alike waived cs ds T ((Builtin.localizeHelper c).perform m)
      ((Builtin.localizeHelper c').perform n) := by
  have htext : c.paramText 0 = c'.paramText 0 := by
    have hparam := hc.param? 0
    unfold Call.paramText
    generalize c.param? 0 = v at hparam ⊢
    generalize c'.param? 0 = v' at hparam ⊢
    cases hparam with
    | none => rfl
    | some hv => exact hV.text hv
  rw [Builtin.localizeHelper, Builtin.localizeHelper, htext, Action.perform, Action.perform,
    ← hm.template]
  have hsame : Render.Alike waived cs ds (· = ·) (m.template.localize (c'.paramText 0))
      (m.template.localize (c'.paramText 0)) :=
    .of_keeps (m.template.keeps_localize _) (m.template.keeps_localize _)
      (by rw [hlocalize]; exact .refl (fun _ => rfl) _)
  apply hsame.bind
  intro x y hxy
  rw [hxy]
  exact .pure (hrefl y)

/-- The helpers that every template can call, called alike, are alike. All but those of sections may
show any text. -/
theorem alike_builtin {name : String} {helper : Helper} (hh : builtin? name = some helper)
    (hshown : name ∈ sectionHelpers ∨ ∀ x, T x x)
    (hlocalize : ∀ x, ((m.template.localize x).run cs).result =
      ((m.template.localize x).run ds).result) :
    Render.Alike waived cs ds T ((helper c).perform m) ((helper c').perform n) := by
  cases name, helper, hh using builtin?_cases with
  | each => exact alike_each hV hT hm hc
  | ifHelper => exact alike_if hV hm hc
  | localize => exact alike_localize hV hm hc (hshown.resolve_left (by decide)) hlocalize
  | log => exact alike_log hT
  | lookup => exact alike_lookup hV hc (hshown.resolve_left (by decide))
  | unlessHelper => exact alike_unless hV hm hc
  | withHelper => exact alike_with hV hm hc

end Helpers

end

end Stencil
