import Stencil.Source.Tag

/-!
Parameters as they are written. The parameters of a tag are read one after the other. A name that is
repeated keeps the place at which it was first written, and takes the expression that was written
last.
-/
namespace Stencil

/-- Named parameters that were written as `pairs`. -/
structure NamedParams.InOrder (named : NamedParams) (pairs : List (String × Expression)) :
    Prop where
  names : named.entries.map (·.1) = (pairs.map (·.1)).eraseDups
  last (name : String) : named.entries.lookup name = pairs.reverse.lookup name

namespace NamedParams

theorem map_fst_replace (name : String) (e : Expression) (entries : List (String × Expression)) :
    (replace name e entries).map (·.1) = entries.map (·.1) := by
  induction entries with
  | nil => rfl
  | cons entry rest ih =>
    rw [replace]
    split
    next h => rw [List.map_cons, List.map_cons, h]
    next => rw [List.map_cons, List.map_cons, ih]

theorem lookup_replace {name : String} (e : Expression) {entries : List (String × Expression)}
    (h : name ∈ entries.map (·.1)) (key : String) :
    (replace name e entries).lookup key = if key = name then some e else entries.lookup key := by
  induction entries with
  | nil => cases h
  | cons entry rest ih =>
    obtain ⟨first, e'⟩ := entry
    rw [replace]
    split
    next heq =>
      obtain rfl : first = name := heq
      rw [Entries.lookup_cons, Entries.lookup_cons]
      split <;> rfl
    next hne =>
      have hrest : name ∈ rest.map (·.1) := by
        rcases List.mem_cons.mp h with rfl | h
        · exact absurd rfl hne
        · exact h
      rw [Entries.lookup_cons, Entries.lookup_cons, ih hrest]
      -- the two names are not the same, so at most one of them is the key
      grind

theorem lookup_concat (entries : List (String × Expression)) {name : String}
    (h : name ∉ entries.map (·.1)) (e : Expression) (key : String) :
    (entries ++ [(name, e)]).lookup key = if key = name then some e else entries.lookup key := by
  rw [List.lookup_append, Entries.lookup_cons, List.lookup_nil]
  split
  next heq =>
    subst heq
    have hnone : entries.lookup key = none :=
      List.lookup_eq_none_iff.mpr fun entry hentry => bne_iff_ne.mpr fun heq =>
        h (List.mem_map.mpr ⟨entry, hentry, heq.symm⟩)
    rw [hnone]
    rfl
  next => rw [Option.or_none]

theorem eraseDups_concat (names : List String) (name : String) :
    (names ++ [name]).eraseDups =
      if name ∈ names then names.eraseDups else names.eraseDups ++ [name] := by
  rw [List.eraseDups_append]
  split
  next h => simp [List.removeAll, h]
  next h => simp [List.removeAll, h, List.eraseDups_cons]

theorem inOrder_nil : InOrder {} [] := ⟨rfl, fun _ => rfl⟩

/-- One more parameter is written. -/
theorem InOrder.insert {named : NamedParams} {pairs : List (String × Expression)}
    (h : named.InOrder pairs) (name : String) (e : Expression) :
    (named.insert name e).InOrder (pairs ++ [(name, e)]) := by
  have hmem : name ∈ named.entries.map (·.1) ↔ name ∈ pairs.map (·.1) := by
    rw [h.names, List.mem_eraseDups]
  have hlast (key : String) : (pairs ++ [(name, e)]).reverse.lookup key =
      if key = name then some e else named.entries.lookup key := by
    rw [List.reverse_append, h.last]
    exact Entries.lookup_cons key name e pairs.reverse
  rw [NamedParams.insert]
  split
  next hany =>
    have hold : name ∈ named.entries.map (·.1) := by simpa using hany
    constructor
    · rw [map_fst_replace, h.names, List.map_append, List.map_singleton, eraseDups_concat,
        if_pos (hmem.mp hold)]
    · intro key
      rw [hlast, lookup_replace e hold]
  next hany =>
    have hnew : name ∉ named.entries.map (·.1) := by simpa using hany
    constructor
    · rw [List.map_append, List.map_singleton, List.map_append, List.map_singleton, h.names,
        eraseDups_concat, if_neg (mt hmem.mpr hnew)]
    · intro key
      rw [hlast, lookup_concat _ hnew]

end NamedParams

/-! All parameters. -/

/-- Parameters that were written as `params`: those without a name, and the named ones. -/
structure Arguments.InOrder (arguments : Arguments) (params : List (Option String × Expression)) :
    Prop where
  positional : arguments.positional = (params.filter (·.1.isNone)).map (·.2)
  named : arguments.named.InOrder (params.filterMap fun param => param.1.map (·, param.2))

namespace Arguments

theorem inOrder_nil : InOrder {} [] := ⟨rfl, NamedParams.inOrder_nil⟩

/-- One more parameter is read. -/
theorem InOrder.add {arguments : Arguments} {params : List (Option String × Expression)}
    (h : arguments.InOrder params) (name? : Option String) (e : Expression) :
    (arguments.add name? e).InOrder (params ++ [(name?, e)]) := by
  cases name? with
  | none =>
    constructor
    · simp [Arguments.add, h.positional]
    · simpa [Arguments.add] using h.named
  | some name =>
    constructor
    · simp [Arguments.add, h.positional]
    · simpa [Arguments.add] using h.named.insert name e

end Arguments

namespace Cursor

/-- The parameters that stand between a place and the closing braces of its tag. -/
inductive Params : Cursor → List (Option String × Expression) → Cursor → Prop
  | done {c} : c.skipSpace.atTagEnd = true → Params c [] c.skipSpace
  | param {c d name? e after params last} : d = c.skipSpace → d.atTagEnd = false →
      name? = d.parameterName? → (name?.elim d d.skipName).expression = .ok (e, after) →
      Params after params last → Params c ((name?.map String.ofList, e) :: params) last

/-- What a tag has read are the parameters that are written in it. -/
theorem exists_params {c last : Cursor} {rule : ParamRule} {found arguments : Arguments}
    (h : c.arguments rule found = .ok (arguments, last)) :
    ∃ params, c.Params params last ∧
      ∀ before, found.InOrder before → arguments.InOrder (before ++ params) := by
  fun_induction Cursor.arguments c rule found with
  | case1 c found d atEnd =>
    obtain ⟨rfl, hlast⟩ := Prod.mk.inj (Except.ok.inj h)
    refine ⟨[], hlast ▸ .done atEnd, fun before hbefore => ?_⟩
    rwa [List.append_nil]
  | case2 => cases h
  | case3 => cases h
  | case4 c found d notEnd name? _ e after he _ ih =>
    obtain ⟨params, hparams, horder⟩ := ih h
    refine ⟨_, .param rfl (Bool.eq_false_iff.mpr notEnd) rfl he hparams, fun before hbefore => ?_⟩
    simpa using horder _ (hbefore.add _ e)

end Cursor
end Stencil
