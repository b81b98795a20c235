/-!
Finite maps from names, kept as lists of entries in strictly increasing order of their names. Names
are compared by code point. The list operations stand on their own, since values hold such lists
inside themselves; `NameMap` adds the proof that the order is kept.
-/
namespace Stencil
namespace Entries

variable {α : Type}

/-- Entries in strictly increasing order of their names. -/
def Sorted (entries : List (String × α)) : Prop := entries.Pairwise fun a b => a.1 < b.1

/-- The entries with `name` standing for `a`, whatever it stood for before. -/
def insert (name : String) (a : α) : List (String × α) → List (String × α)
  | [] => [(name, a)]
  | (n, b) :: rest =>
    if name < n then (name, a) :: (n, b) :: rest
    else if name = n then (name, a) :: rest
    else (n, b) :: insert name a rest

/-- The entries with those of `added` put in one after the other. -/
def insertAll (entries added : List (String × α)) : List (String × α) :=
  added.foldl (fun kept e => insert e.1 e.2 kept) entries

/-- The entries of a list of pairs in any order, a later pair replacing an earlier one. -/
def ofList (pairs : List (String × α)) : List (String × α) := insertAll [] pairs

theorem mem_insert {name : String} {a : α} {entries : List (String × α)} {e : String × α}
    (h : e ∈ insert name a entries) : e = (name, a) ∨ e ∈ entries := by
  induction entries with
  | nil => simpa [insert] using h
  | cons first rest ih =>
    obtain ⟨n, b⟩ := first
    simp only [insert] at h
    split at h
    · simpa using h
    · split at h
      · simp only [List.mem_cons] at h ⊢
        exact h.imp_right .inr
      · simp only [List.mem_cons] at h ⊢
        rcases h with h | h
        · exact .inr (.inl h)
        · exact (ih h).imp_right .inr

theorem Sorted.insert {entries : List (String × α)} (h : Sorted entries) (name : String) (a : α) :
    Sorted (insert name a entries) := by
  induction entries with
  | nil => simp [Entries.insert, Sorted]
  | cons first rest ih =>
    obtain ⟨n, b⟩ := first
    simp only [Sorted, List.pairwise_cons] at h
    simp only [Entries.insert]
    split
    next less =>
      simp only [Sorted, List.pairwise_cons]
      refine ⟨?_, h⟩
      intro e he
      rcases List.mem_cons.1 he with rfl | he
      · exact less
      · exact String.lt_trans less (h.1 e he)
    next notLess =>
      split
      next same =>
        subst same
        simpa [Sorted] using h
      next different =>
        simp only [Sorted, List.pairwise_cons]
        refine ⟨fun e he => ?_, ih h.2⟩
        rcases mem_insert he with rfl | he
        · exact String.not_le.1 fun le =>
            different (String.le_antisymm le (String.not_lt.1 notLess))
        · exact h.1 e he

theorem Sorted.insertAll {entries : List (String × α)} (h : Sorted entries)
    (added : List (String × α)) : Sorted (insertAll entries added) := by
  induction added generalizing entries with
  | nil => exact h
  | cons e added ih => exact ih (h.insert e.1 e.2)

theorem lookup_cons (key name : String) (a : α) (rest : List (String × α)) :
    ((name, a) :: rest).lookup key = if key = name then some a else rest.lookup key := by
  by_cases h : key = name
  · subst h
    simp
  · rw [List.lookup_cons, beq_eq_false_iff_ne.2 h, if_neg h]

theorem lookup_insert (name key : String) (a : α) (entries : List (String × α)) :
    (insert name a entries).lookup key =
      if key = name then some a else entries.lookup key := by
  induction entries with
  | nil => simp [insert, lookup_cons]
  | cons first rest ih =>
    obtain ⟨n, b⟩ := first
    simp only [insert]
    split
    · simp only [lookup_cons]
    · split
      next same => subst same; simp only [lookup_cons]; split <;> rfl
      next different => simp only [lookup_cons, ih]; grind

/-- The last pair of a name counts. -/
theorem lookup_insertAll (entries added : List (String × α)) (key : String) :
    (insertAll entries added).lookup key = (added.reverse.lookup key).or (entries.lookup key) := by
  induction added generalizing entries with
  | nil => rfl
  | cons e added ih =>
    have hrest := ih (insert e.1 e.2 entries)
    rw [List.reverse_cons, List.lookup_append, Option.or_assoc, lookup_cons, List.lookup_nil]
    refine hrest.trans (congrArg _ ?_)
    rw [lookup_insert]
    split <;> rfl

end Entries

/-- A finite map from names. -/
structure NameMap (α : Type) where
  entries : List (String × α)
  sorted : Entries.Sorted entries

namespace NameMap

variable {α : Type}

def empty : NameMap α := ⟨[], .nil⟩

instance : EmptyCollection (NameMap α) := ⟨empty⟩

instance : Inhabited (NameMap α) := ⟨∅⟩

/-- What `name` stands for. -/
def get? (m : NameMap α) (name : String) : Option α := m.entries.lookup name

/-- The map with `name` standing for `a`. -/
def insert (m : NameMap α) (name : String) (a : α) : NameMap α :=
  ⟨Entries.insert name a m.entries, m.sorted.insert name a⟩

/-- The map with every one of `pairs` put in, a later pair replacing an earlier one. -/
def insertAll (m : NameMap α) (pairs : List (String × α)) : NameMap α :=
  ⟨Entries.insertAll m.entries pairs, m.sorted.insertAll pairs⟩

/-- The map without `name`. -/
def erase (m : NameMap α) (name : String) : NameMap α :=
  ⟨m.entries.filter (·.1 != name), m.sorted.filter _⟩

/-- The names of the map, in increasing order. -/
def names (m : NameMap α) : List String := m.entries.map (·.1)

def contains (m : NameMap α) (name : String) : Bool := (m.get? name).isSome

def size (m : NameMap α) : Nat := m.entries.length

def isEmpty (m : NameMap α) : Bool := m.entries.isEmpty

@[simp] theorem get?_empty (name : String) : (∅ : NameMap α).get? name = none := rfl

theorem get?_insert (m : NameMap α) (name key : String) (a : α) :
    (m.insert name a).get? key = if key = name then some a else m.get? key :=
  Entries.lookup_insert name key a m.entries

theorem get?_insertAll (m : NameMap α) (pairs : List (String × α)) (key : String) :
    (m.insertAll pairs).get? key = (pairs.reverse.lookup key).or (m.get? key) :=
  Entries.lookup_insertAll m.entries pairs key

theorem get?_erase (m : NameMap α) (name key : String) :
    (m.erase name).get? key = if key = name then none else m.get? key := by
  simp only [get?, erase]
  induction m.entries with
  | nil => simp
  | cons e rest ih =>
    obtain ⟨n, b⟩ := e
    by_cases h : n = name
    · subst h
      simp only [List.filter_cons, bne_self_eq_false, Entries.lookup_cons]
      grind
    · simp only [List.filter_cons, bne_iff_ne.2 h, if_true, Entries.lookup_cons, ih]
      grind

theorem names_sorted (m : NameMap α) : m.names.Pairwise (· < ·) := by
  simpa [names, List.pairwise_map, Entries.Sorted] using m.sorted

end NameMap
end Stencil
