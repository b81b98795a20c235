import Stencil.Proofs.Resolution
import Stencil.Session
import Mathlib.Data.List.Induction

/-!
What operations do to what contexts hold. Each operation makes a list of changes to the registries
of one context, and a name stands for an entry as long as no later change touches the name.
-/
namespace Stencil

/-! One registry. -/

/-- What is done to the entries of a registry. -/
inductive Change (α : Type) where
  | hold (name : String) (entry : α)
  | drop (name : String)
  | dropAll

/-- A change that decides what is held under a name. -/
def Change.Touches {α : Type} (name : String) : Change α → Prop
  | .hold other _ | .drop other => other = name
  | .dropAll => True

/-- `c` is the last of a list of changes that touches a name. -/
def LastTouch {α : Type} (name : String) (c : Change α) (log : List (Change α)) : Prop :=
  ∃ before after, log = before ++ c :: after ∧ c.Touches name ∧
    ∀ later ∈ after, ¬ later.Touches name

namespace NameMap

variable {α : Type}

/-- The entries after a change. -/
def change (m : NameMap α) : Change α → NameMap α
  | .hold name entry => m.insert name entry
  | .drop name => m.erase name
  | .dropAll => ∅

/-- The entries after a list of changes. -/
def changeAll (m : NameMap α) (log : List (Change α)) : NameMap α := log.foldl change m

@[simp] theorem changeAll_nil (m : NameMap α) : m.changeAll [] = m := rfl

@[simp] theorem changeAll_append (m : NameMap α) (log log' : List (Change α)) :
    m.changeAll (log ++ log') = (m.changeAll log).changeAll log' :=
  List.foldl_append

theorem changeAll_hold (m : NameMap α) (pairs : List (String × α)) :
    m.changeAll (pairs.map fun e => .hold e.1 e.2) = m.insertAll pairs := by
  induction pairs generalizing m with
  | nil => rfl
  | cons e rest ih => exact ih (m.insert e.1 e.2)

theorem get?_change_of_not_touches (m : NameMap α) {name : String} {c : Change α}
    (h : ¬ c.Touches name) : (m.change c).get? name = m.get? name := by
  cases c with
  | hold other entry => rw [change, get?_insert, if_neg (Ne.symm h)]
  | drop other => rw [change, get?_erase, if_neg (Ne.symm h)]
  | dropAll => exact absurd trivial h

theorem get?_change_of_touches (m : NameMap α) {name : String} {c : Change α}
    (h : c.Touches name) (a : α) : (m.change c).get? name = some a ↔ c = .hold name a := by
  cases c with
  | hold other entry =>
    obtain rfl : other = name := h
    simp [change, get?_insert]
  | drop other =>
    obtain rfl : other = name := h
    simp [change, get?_erase]
  | dropAll => simp [change]

end NameMap

theorem lastTouch_concat {α : Type} {name : String} {c d : Change α} {log : List (Change α)} :
    LastTouch name c (log ++ [d]) ↔
      d.Touches name ∧ c = d ∨ ¬ d.Touches name ∧ LastTouch name c log := by
  constructor
  · rintro ⟨before, after, heq, hc, hafter⟩
    rcases List.eq_nil_or_concat' after with rfl | ⟨after, e, rfl⟩
    · obtain ⟨-, rfl⟩ := List.append_inj' heq rfl |>.imp_right List.singleton_inj.mp
      exact .inl ⟨hc, rfl⟩
    · rw [← List.cons_append, ← List.append_assoc] at heq
      obtain ⟨rfl, rfl⟩ := List.append_inj' heq rfl |>.imp_right List.singleton_inj.mp
      exact .inr ⟨hafter d (by simp), before, after, rfl, hc, fun e he => hafter e (by simp [he])⟩
  · rintro (⟨hd, rfl⟩ | ⟨hd, before, after, rfl, hc, hafter⟩)
    · exact ⟨log, [], rfl, hd, nofun⟩
    · refine ⟨before, after ++ [d], by simp, hc, fun e he => ?_⟩
      rcases List.mem_append.mp he with he | he
      · exact hafter e he
      · exact (List.mem_singleton.mp he) ▸ hd

/-- A name stands for an entry exactly if the last change that touched it put that entry there. -/
theorem NameMap.get?_changeAll {α : Type} (log : List (Change α)) (name : String) (a : α) :
    (changeAll ∅ log).get? name = some a ↔ LastTouch name (.hold name a) log := by
  induction log using List.reverseRecOn with
  | nil => simp [LastTouch]
  | append_singleton log c ih =>
    rw [changeAll_append, lastTouch_concat]
    change ((changeAll ∅ log).change c).get? name = _ ↔ _
    by_cases hc : c.Touches name
    · rw [get?_change_of_touches _ hc]
      simp [hc, eq_comm]
    · rw [get?_change_of_not_touches _ hc, ih]
      simp [hc]

/-- What is held was held before, or a change put it there. -/
theorem NameMap.get?_changeAll_or {α : Type} (m : NameMap α) (log : List (Change α)) {name : String}
    {a : α} (h : (m.changeAll log).get? name = some a) :
    m.get? name = some a ∨ .hold name a ∈ log := by
  induction log using List.reverseRecOn with
  | nil => exact .inl h
  | append_singleton log c ih =>
    rw [changeAll_append] at h
    change ((m.changeAll log).change c).get? name = _ at h
    by_cases hc : c.Touches name
    · exact .inr (by simp [(get?_change_of_touches _ hc a).mp h])
    · rw [get?_change_of_not_touches _ hc] at h
      exact (ih h).imp_right fun h => by simp [h]

theorem Entries.lookup_eq_none_of_lt {α : Type} {name : String} {entries : List (String × α)}
    (h : ∀ e ∈ entries, name < e.1) : entries.lookup name = none := by
  refine List.lookup_eq_none_iff.mpr fun e he => bne_iff_ne.mpr fun heq => ?_
  exact String.lt_irrefl name (heq ▸ h e he)

theorem Entries.not_lt_of_lookup {α : Type} {n m : String} {a b : α} {xs ys : List (String × α)}
    (hys : ∀ e ∈ ys, m < e.1)
    (h : ((n, a) :: xs).lookup n = ((m, b) :: ys).lookup n) : ¬ n < m := by
  intro hlt
  have hne : n ≠ m := fun heq => String.lt_irrefl m (heq ▸ hlt)
  have hrest : ys.lookup n = none := lookup_eq_none_of_lt fun e he => String.lt_trans hlt (hys e he)
  rw [lookup_cons, lookup_cons, if_pos rfl, if_neg hne, hrest] at h
  cases h

/-- Sorted entries in which every name stands for the same are the same. -/
theorem Entries.Sorted.eq_of_lookup {α : Type} {xs ys : List (String × α)} (hx : Sorted xs)
    (hy : Sorted ys) (h : ∀ name, xs.lookup name = ys.lookup name) : xs = ys := by
  induction xs generalizing ys with
  | nil =>
    cases ys with
    | nil => rfl
    | cons f ys =>
      have hfirst := h f.1
      rw [lookup_cons, if_pos rfl] at hfirst
      cases hfirst
  | cons e xs ih =>
    cases ys with
    | nil =>
      have hfirst := h e.1
      rw [lookup_cons, if_pos rfl] at hfirst
      cases hfirst
    | cons f ys =>
      obtain ⟨n, a⟩ := e
      obtain ⟨m, b⟩ := f
      obtain ⟨hn, hxs⟩ := List.pairwise_cons.mp hx
      obtain ⟨hm, hys⟩ := List.pairwise_cons.mp hy
      obtain rfl : n = m := String.le_antisymm (String.not_lt.mp (not_lt_of_lookup hn (h m).symm))
        (String.not_lt.mp (not_lt_of_lookup hm (h n)))
      have hab : a = b := by simpa [lookup_cons] using h n
      have hrest (name : String) : xs.lookup name = ys.lookup name := by
        by_cases hname : name = n
        · rw [hname, lookup_eq_none_of_lt hn, lookup_eq_none_of_lt hm]
        · simpa only [lookup_cons, if_neg hname] using h name
      have htail : xs = ys := ih hxs hys hrest
      rw [hab, htail]

/-- Two registries that hold the same are the same, in whatever order they were filled. -/
theorem NameMap.ext_get? {α : Type} {m n : NameMap α} (h : ∀ name, m.get? name = n.get? name) :
    m = n := by
  obtain ⟨xs, hx⟩ := m
  obtain ⟨ys, hy⟩ := n
  obtain rfl : xs = ys := hx.eq_of_lookup hy h
  rfl

/-! What a registry tells. -/

/-- A listing that tells what is held: the names in strictly increasing order, and how many they
are. -/
structure Listing.Tells {α : Type} (l : Listing) (held : String → Option α) : Prop where
  sorted : l.names.Pairwise (· < ·)
  mem_names (name : String) : name ∈ l.names ↔ (held name).isSome
  size : l.size = l.names.length
  isEmpty : l.isEmpty = true ↔ l.names = []

theorem NameMap.contains_eq {α : Type} (m : NameMap α) (name : String) :
    m.contains name = decide (name ∈ m.names) := by
  rw [contains, get?, names]
  induction m.entries with
  | nil => rfl
  | cons e rest ih =>
    rw [Entries.lookup_cons]
    by_cases h : name = e.1
    · simp [h]
    · simp [h, ih]

theorem NameMap.listing_tells {α : Type} (m : NameMap α) : m.listing.Tells m.get? where
  sorted := m.names_sorted
  mem_names name := by
    change name ∈ m.names ↔ m.contains name = true
    rw [m.contains_eq, decide_eq_true_iff]
  size := by simp [listing, size, names]
  isEmpty := by simp [listing, isEmpty, names]

/-! One context. -/

/-- Two contexts in which every name stands for the same. -/
structure ExecutionContext.HoldsSame (c d : ExecutionContext) : Prop where
  helpers (name : String) : c.helpers.get? name = d.helpers.get? name
  partials (name : String) : c.partials.get? name = d.partials.get? name
  delegate : c.delegate = d.delegate

theorem ExecutionContext.HoldsSame.eq {c d : ExecutionContext} (h : c.HoldsSame d) : c = d := by
  obtain ⟨helpers, partials, delegate⟩ := c
  obtain ⟨helpers', partials', delegate'⟩ := d
  obtain rfl : helpers = helpers' := NameMap.ext_get? h.helpers
  obtain rfl : partials = partials' := NameMap.ext_get? h.partials
  obtain rfl : delegate = delegate' := h.delegate
  rfl

/-- A text that does not parse is not registered. -/
def partialChange (name source : String) : List (Change Partial) :=
  match Partial.compile source with
  | .ok p => [.hold name p]
  | .error _ => []

namespace ContextOperation

/-- What an operation does to the helpers of its context. -/
def helperChanges : ContextOperation → List (Change Helper)
  | .registerHelper name helper | .replaceHelper name helper => [.hold name helper]
  | .registerHelpers helpers => helpers.map fun e => .hold e.1 e.2
  | .unregisterHelper name => [.drop name]
  | .unregisterAllHelpers => [.dropAll]
  | .registerPartial .. | .registerPartials _ | .replacePartial .. | .unregisterPartial _
  | .unregisterAllPartials | .copyPartial .. | .setDelegate _ | .contents | .describe | .holds _
  | .findHelper _ | .findPartial _ | .localize _ | .escape .. => []

/-- What an operation does to the partials of its context, where all contexts are `cs`. Of a list
of texts none is registered unless all parse. -/
def partialChanges (cs : Contexts) : ContextOperation → List (Change Partial)
  | .registerPartial name source | .replacePartial name source => partialChange name source
  | .registerPartials sources =>
    match compileAll sources with
    | .ok partials => partials.map fun e => .hold e.1 e.2
    | .error _ => []
  | .unregisterPartial name => [.drop name]
  | .unregisterAllPartials => [.dropAll]
  | .copyPartial origin name target =>
    ((cs.get origin).partials.get? name).toList.map (.hold target)
  | .registerHelper .. | .registerHelpers _ | .replaceHelper .. | .unregisterHelper _
  | .unregisterAllHelpers | .setDelegate _ | .contents | .describe | .holds _ | .findHelper _
  | .findPartial _ | .localize _ | .escape .. => []

/-- The delegate that an operation installs, or that there is none any more. -/
def delegates : ContextOperation → List (Option Delegate)
  | .setDelegate delegate => [delegate]
  | _ => []

/-- A context after the changes of an operation. -/
def apply (operation : ContextOperation) (cs : Contexts) (c : ExecutionContext) :
    ExecutionContext where
  helpers := c.helpers.changeAll operation.helperChanges
  partials := c.partials.changeAll (operation.partialChanges cs)
  delegate := operation.delegates.getLast?.getD c.delegate

end ContextOperation

theorem Contexts.update_self (cs : Contexts) {id : ContextId}
    {f : ExecutionContext → ExecutionContext} (h : f (cs.get id) = cs.get id) :
    cs.update id f = cs := by
  obtain ⟨get⟩ := cs
  simp only [update, Contexts.mk.injEq]
  funext other
  split
  next heq => rw [heq]; exact h
  next => rfl

namespace Session

variable (s : Session) (id : ContextId)

theorem change_congr {f g : ExecutionContext → ExecutionContext}
    (h : f (s.contexts.get id) = g (s.contexts.get id)) : s.change id f = s.change id g := by
  simp only [change, Contexts.update, h]

theorem change_self {f : ExecutionContext → ExecutionContext}
    (h : f (s.contexts.get id) = s.contexts.get id) : s.change id f = s := by
  rw [change, s.contexts.update_self h]

/-- A rendering that leaves the contexts as they are leaves the session as it is. -/
theorem fst_perform {α : Type} {m : Render α} (answer : α → Answer)
    (h : (m.run s.contexts).contexts = s.contexts) : (s.perform m answer).1 = s := by
  rw [perform, h]

theorem fst_tryChange_registerPartial (name source : String) (answer : Answer) :
    (s.tryChange id ((s.contexts.get id).registerPartial name source) answer).1 =
      s.change id fun c =>
        { c with partials := c.partials.changeAll (partialChange name source) } := by
  rw [ExecutionContext.registerPartial, partialChange]
  cases Partial.compile source with
  | ok p => rfl
  | error e => exact (s.change_self id rfl).symm

theorem fst_tryChange_registerPartials (sources : List (String × String)) (answer : Answer)
    (cs : Contexts) :
    (s.tryChange id ((s.contexts.get id).registerPartials sources) answer).1 =
      s.change id ((ContextOperation.registerPartials sources).apply cs) := by
  have happly (c : ExecutionContext) : (ContextOperation.registerPartials sources).apply cs c =
      { c with
        partials := c.partials.changeAll ((ContextOperation.registerPartials sources).partialChanges
          cs) } := rfl
  rw [ExecutionContext.registerPartials]
  cases hr : compileAll sources with
  | ok partials =>
    refine s.change_congr id ?_
    rw [happly, ContextOperation.partialChanges, hr]
    dsimp only
    rw [NameMap.changeAll_hold]
  | error e =>
    refine (s.change_self id ?_).symm
    rw [happly, ContextOperation.partialChanges, hr]
    rfl

/-- An operation on a context changes that context only, by the changes that it makes. -/
theorem fst_onContext (operation : ContextOperation) :
    (s.onContext id operation).1 = s.change id (operation.apply s.contexts) := by
  cases operation with
  | registerHelpers helpers =>
    have h (c : ExecutionContext) : (ContextOperation.registerHelpers helpers).apply s.contexts c =
        c.registerHelpers helpers :=
      congrArg (fun helpers => { c with helpers }) (c.helpers.changeAll_hold helpers)
    exact congrArg (s.change id) (funext fun c => (h c).symm)
  | registerPartial name source => exact s.fst_tryChange_registerPartial id name source _
  | replacePartial name source => exact s.fst_tryChange_registerPartial id name source _
  | registerPartials sources => exact s.fst_tryChange_registerPartials id sources _ _
  | copyPartial origin name target =>
    rw [onContext]
    cases hr : (s.contexts.get origin).partials.get? name with
    | some p =>
      refine s.change_congr id ?_
      simp only [ContextOperation.apply, ContextOperation.partialChanges, hr]
      rfl
    | none =>
      refine (s.change_self id ?_).symm
      simp only [ContextOperation.apply, ContextOperation.partialChanges, hr]
      rfl
  | findHelper name =>
    exact (s.fst_perform _ (by rw [id.run_helper?])).trans (s.change_self id rfl).symm
  | findPartial name =>
    exact (s.fst_perform _ (by rw [id.run_partial?])).trans (s.change_self id rfl).symm
  | localize text =>
    exact (s.fst_perform _ (by rw [id.run_localize?])).trans (s.change_self id rfl).symm
  | escape text format =>
    exact (s.fst_perform _ (by rw [id.run_escape?])).trans (s.change_self id rfl).symm
  | contents | describe | holds name => exact (s.change_self id rfl).symm
  | registerHelper name helper | replaceHelper name helper | unregisterHelper name
  | unregisterAllHelpers | unregisterPartial name | unregisterAllPartials | setDelegate d => rfl

end Session
end Stencil
