import Stencil.Proofs.Alike
import Stencil.Proofs.Occurs
import Mathlib.Data.ENat.Basic
import Mathlib.Data.List.Forall2

/-!
Scopes compared. A relation between values that templates cannot tell apart extends to private data,
to the levels of scopes and to what expressions stand for. Scopes need to be alike only as far out
as paths climb, and private data only for the names that are used.
-/
namespace Stencil

/-- Entries with one key and related values. -/
def EntryAlike (V : Value → Value → Prop) (a b : String × Value) : Prop := a.1 = b.1 ∧ V a.2 b.2

/-- A relation between values that agree on every question that templates can put to them. -/
structure Value.Indistinct (V : Value → Value → Prop) : Prop where
  refl (v : Value) : V v v
  text {v w : Value} : V v w → v.text = w.text
  isTruthy {v w : Value} : V v w → v.isTruthy = w.isTruthy
  isNull {v w : Value} : V v w → v.isNull = w.isNull
  elements? {v w : Value} : V v w → Option.Rel (List.Forall₂ V) v.elements? w.elements?
  entries? {v w : Value} :
    V v w → Option.Rel (List.Forall₂ (EntryAlike V)) v.entries? w.entries?
  access {v w : Value} :
    V v w → ∀ key, Agree (Option.Rel V) (v.access key).result (w.access key).result

namespace Reading

variable {α β : Type}

/-- A reading of fields that templates may read. -/
def Allowed (m : Reading α) : Prop := ∀ field ∈ m.reads, field.key ∈ field.host.allowedKeys

theorem Allowed.pure (a : α) : Allowed (Pure.pure a : Reading α) := nofun

theorem Allowed.bind {m : Reading α} {f : α → Reading β} (h : m.Allowed)
    (hf : ∀ a, (f a).Allowed) : (m >>= f).Allowed := by
  obtain ⟨reads, result⟩ := m
  cases result with
  | error e => exact h
  | ok a =>
    intro field hfield
    rcases List.mem_append.mp hfield with hfield | hfield
    · exact h field hfield
    · exact hf a field hfield

theorem result_bind (m : Reading α) (f : α → Reading β) :
    (m >>= f).result = m.result.bind fun a => (f a).result := by
  obtain ⟨reads, result⟩ := m
  cases result <;> rfl

end Reading

/-- The field that a value has read for a key is one that its host object allows. -/
theorem Value.answer_allowed {v : Value} {key : String} {h : Host Value}
    (ha : v.answer key = .field h) : key ∈ h.allowedKeys := by
  cases v with
  | host g =>
    simp only [answer, hostAnswer] at ha
    split at ha
    · cases ha
    · split at ha
      · cases ha
      · split at ha
        next hkey =>
          cases ha
          exact List.contains_iff_mem.mp hkey
        next => cases ha
  | null | bool _ | number _ | string _ | array _ | object _ => cases ha

theorem Value.allowed_access (v : Value) (key : String) : (v.access key).Allowed := by
  unfold Value.access
  split
  next => exact .pure _
  next h ha =>
    intro field hfield
    obtain rfl : field = ⟨h, key⟩ := by simpa [Reading.field] using hfield
    exact answer_allowed ha

/-! Private data. -/

/-- Private data that are alike under the names of `N`. -/
def DataAlike (V : Value → Value → Prop) (N : String → Prop) (d d' : PrivateData) : Prop :=
  ∀ name, N name → Option.Rel V (d.get? name) (d'.get? name)

section
variable {V : Value → Value → Prop} {N : String → Prop}

theorem DataAlike.insert {d d' : PrivateData} (h : DataAlike V N d d') {a b : String × Value}
    (hab : EntryAlike V a b) : DataAlike V N (d.insert a.1 a.2) (d'.insert b.1 b.2) := by
  intro name hname
  rw [NameMap.get?_insert, NameMap.get?_insert, ← hab.1]
  split
  · exact .some hab.2
  · exact h name hname

theorem DataAlike.insertAll {d d' : PrivateData} (h : DataAlike V N d d')
    {pairs pairs' : List (String × Value)} (hp : List.Forall₂ (EntryAlike V) pairs pairs') :
    DataAlike V N (d.insertAll pairs) (d'.insertAll pairs') := by
  induction hp generalizing d d' with
  | nil => exact h
  | cons hab _ ih => exact ih (h.insert hab)

/-! Levels and scopes. -/

/-- Two levels with related values and private data. -/
structure LevelAlike (V : Value → Value → Prop) (N : String → Prop) (l l' : Level) : Prop where
  value : V l.value l'.value
  data : DataAlike V N l.data l'.data

/-- The levels of a scope, from the innermost on. -/
def Scope.levels (s : Scope) : List Level := s.level :: s.outer

/-- Two scopes whose levels are alike as far out as `k` steps. -/
def ScopeAlike (V : Value → Value → Prop) (N : String → Prop) (k : ℕ∞) (s s' : Scope) : Prop :=
  ∀ i : ℕ, (i : ℕ∞) ≤ k → Option.Rel (LevelAlike V N) s.levels[i]? s'.levels[i]?

theorem ScopeAlike.level {k : ℕ∞} {s s' : Scope} (h : ScopeAlike V N k s s') :
    LevelAlike V N s.level s'.level := by
  have h0 := h 0 (by simp)
  simp only [Scope.levels, List.getElem?_cons_zero] at h0
  cases h0 with
  | some hlevel => exact hlevel

theorem ScopeAlike.of_le {k k' : ℕ∞} {s s' : Scope} (h : ScopeAlike V N k s s') (hk : k' ≤ k) :
    ScopeAlike V N k' s s' :=
  fun i hi => h i (hi.trans hk)

theorem ScopeAlike.child {k : ℕ∞} {s s' : Scope} (h : ScopeAlike V N k s s') {v w : Value}
    (hv : V v w) {d d' : PrivateData} (hd : DataAlike V N d d') :
    ScopeAlike V N (k + 1) (s.child v d) (s'.child w d') := by
  intro i hi
  cases i with
  | zero => exact .some ⟨hv, hd⟩
  | succ i => exact h i (by simpa using hi)

theorem ScopeAlike.withData {k : ℕ∞} {s s' : Scope} (h : ScopeAlike V N k s s')
    {d d' : PrivateData} (hd : DataAlike V N d d') :
    ScopeAlike V N k (s.withData d) (s'.withData d') := by
  intro i hi
  cases i with
  | zero => exact .some ⟨h.level.value, hd⟩
  | succ i => exact h (i + 1) hi

theorem ScopeAlike.root {v w : Value} (hv : V v w) (k : ℕ∞) :
    ScopeAlike V N k (.root v) (.root w) := by
  intro i _
  cases i with
  | zero => exact .some ⟨hv, fun name _ => .none⟩
  | succ i => exact .none

theorem map_level_ancestor? (s : Scope) (n : Nat) :
    (s.ancestor? n).map Scope.level = s.levels[n]? := by
  induction n generalizing s with
  | zero => rfl
  | succ n ih =>
    obtain ⟨level, outer⟩ := s
    cases outer with
    | nil => rfl
    | cons next outer => exact ih ⟨next, outer⟩

/-! What paths and expressions stand for. -/

/-- The private data that an expression names are in `N`, and its path climbs at most `k` steps. -/
def Expression.Within (N : String → Prop) (k : ℕ∞) (e : Expression) : Prop :=
  ∀ path, e = .path path → path.climbs ≤ k ∧ ∀ name, .datum name ∈ path.steps → N name

theorem allowed_follow (level : Level) (current : Value) (steps : List PathStep) :
    (Scope.follow level current steps).Allowed := by
  induction steps generalizing current with
  | nil => exact .pure _
  | cons step rest ih =>
    apply Reading.Allowed.bind
    · cases step with
      | field name => exact current.allowed_access name
      | this | parent | datum name => exact .pure _
    · intro found
      cases found with
      | none => exact .pure none
      | some next => exact ih next

theorem allowed_resolve (s : Scope) (steps : List PathStep) : (s.resolve steps).Allowed := by
  unfold Scope.resolve
  split
  · exact allowed_follow _ _ _
  · exact .pure none

section
variable (hV : Value.Indistinct V)
include hV

theorem follow_alike {level level' : Level} (hl : LevelAlike V N level level')
    {current current' : Value} (hc : V current current') {steps : List PathStep}
    (hn : ∀ name, .datum name ∈ steps → N name) :
    Agree (Option.Rel V) (Scope.follow level current steps).result
      (Scope.follow level' current' steps).result := by
  induction steps generalizing current current' with
  | nil => exact .ok (.some hc)
  | cons step rest ih =>
    have hstep : Agree (Option.Rel V) (Scope.step level current step).result
        (Scope.step level' current' step).result := by
      cases step with
      | this => exact .ok (.some hc)
      | parent => exact .ok .none
      | datum name => exact .ok (hl.data name (hn name (by simp)))
      | field name => exact hV.access hc name
    rw [Scope.follow, Scope.follow, Reading.result_bind, Reading.result_bind]
    apply hstep.bind
    intro found found' hfound
    cases hfound with
    | none => exact .ok .none
    | some hnext => exact ih hnext fun name hname => hn name (.tail _ hname)

theorem resolve_alike {k : ℕ∞} {s s' : Scope} (hs : ScopeAlike V N k s s') {path : Path}
    (hk : path.climbs ≤ k) (hn : ∀ name, .datum name ∈ path.steps → N name) :
    Agree (Option.Rel V) (s.resolve path.steps).result (s'.resolve path.steps).result := by
  have hlevel := hs path.climbs hk
  rw [← map_level_ancestor?, ← map_level_ancestor?, Path.climbs] at hlevel
  have hrest : ∀ name, .datum name ∈ path.steps.dropWhile (· == .parent) → N name :=
    fun name hname => hn name ((List.dropWhile_suffix _).subset hname)
  unfold Scope.resolve
  generalize s.ancestor? (path.steps.takeWhile (· == .parent)).length = a at hlevel ⊢
  generalize s'.ancestor? (path.steps.takeWhile (· == .parent)).length = b at hlevel ⊢
  cases a with
  | none =>
    cases b with
    | none => exact .ok .none
    | some b => cases hlevel
  | some a =>
    cases b with
    | none => cases hlevel
    | some b =>
      cases hlevel with
      | some hl => exact follow_alike hV hl hl.value hrest

end

end

namespace Render

theorem keeps_reading {α : Type} {r : Reading α} (h : r.Allowed) (cs : Contexts) :
    (reading r).Keeps cs where
  contexts := rfl
  allowed e he := by
    obtain ⟨field, hfield, rfl⟩ := List.mem_map.mp he
    exact h field hfield

theorem keeps_attemptReading {α : Type} {r : Reading α} (h : r.Allowed) (cs : Contexts) :
    (attemptReading r).Keeps cs where
  contexts := rfl
  allowed e he := by
    obtain ⟨field, hfield, rfl⟩ := List.mem_map.mp he
    exact h field hfield

theorem keeps_evaluate? (s : Scope) (e : Expression) (cs : Contexts) :
    (evaluate? s e).Keeps cs := by
  cases e with
  | path path => exact keeps_reading (allowed_resolve s path.steps) cs
  | string text => exact .pure _
  | numeral n => exact .pure _

theorem keeps_evaluate (s : Scope) (e : Expression) (cs : Contexts) : (evaluate s e).Keeps cs :=
  (keeps_evaluate? s e cs).bind fun _ _ => .pure _

theorem keeps_evaluateAll (s : Scope) (es : List Expression) (cs : Contexts) :
    (evaluateAll s es).Keeps cs := by
  induction es with
  | nil => exact .pure _
  | cons e rest ih => exact (keeps_evaluate s e cs).bind fun _ _ => ih.bind fun _ _ => .pure _

theorem keeps_evaluateNamed (s : Scope) (es : List (String × Expression)) (cs : Contexts) :
    (evaluateNamed s es).Keeps cs := by
  induction es with
  | nil => exact .pure _
  | cons e rest ih => exact (keeps_evaluate s e.2 cs).bind fun _ _ => ih.bind fun _ _ => .pure _

section
variable {waived : RenderError → Prop} {cs ds : Contexts} {V : Value → Value → Prop}
  {N : String → Prop} {k : ℕ∞} {s s' : Scope}
variable (hV : Value.Indistinct V) (hs : ScopeAlike V N k s s')
include hV hs

theorem alike_evaluate? {e : Expression} (he : e.Within N k) :
    Alike waived cs ds (Option.Rel V) (evaluate? s e) (evaluate? s' e) := by
  cases e with
  | path path =>
    obtain ⟨hk, hn⟩ := he path rfl
    exact .of_keeps (keeps_evaluate? s _ cs) (keeps_evaluate? s' _ ds)
      ((resolve_alike hV hs hk hn).mapError _)
  | string text => exact .pure (.some (hV.refl _))
  | numeral n => exact .pure (.some (hV.refl _))

theorem alike_evaluate {e : Expression} (he : e.Within N k) :
    Alike waived cs ds V (evaluate s e) (evaluate s' e) := by
  apply (alike_evaluate? hV hs he).bind
  intro found found' hfound
  cases hfound with
  | none => exact .pure (hV.refl _)
  | some hv => exact .pure hv

theorem alike_evaluateAll {es : List Expression} (he : ∀ e ∈ es, e.Within N k) :
    Alike waived cs ds (List.Forall₂ V) (evaluateAll s es) (evaluateAll s' es) := by
  induction es with
  | nil => exact .pure .nil
  | cons e rest ih =>
    apply (alike_evaluate hV hs (he e (by simp))).bind
    intro v w hv
    apply (ih fun x hx => he x (.tail _ hx)).bind
    intro vs ws hvs
    exact .pure (.cons hv hvs)

theorem alike_evaluateNamed {es : List (String × Expression)}
    (he : ∀ e ∈ es.map (·.2), e.Within N k) :
    Alike waived cs ds (List.Forall₂ (EntryAlike V)) (evaluateNamed s es)
      (evaluateNamed s' es) := by
  induction es with
  | nil => exact .pure .nil
  | cons entry rest ih =>
    apply (alike_evaluate hV hs (he entry.2 (by simp))).bind
    intro v w hv
    apply (ih fun x hx => he x (.tail _ hx)).bind
    intro vs ws hvs
    exact .pure (.cons ⟨rfl, hv⟩ hvs)

end
end Render

end Stencil
