import Stencil.Proofs.Alike.Scope
import Stencil.Proofs.NormalForm
import Stencil.Proofs.ReadOrder.Reads
import Stencil.Proofs.Words

/-!
Paths and the chain of scopes. The parents of a path that was read choose one scope of the chain;
the steps behind them start from its value, or from one of its private data, and look at no other.
-/
namespace Stencil

open Written

/-- A path of a program: an expression of one of its statements, or the head of one of its
blocks. -/
def HasPath (p : Program) (path : Path) : Prop :=
  ∃ s d, Occurs s d p ∧
    (.path path ∈ s.expressions ∨ ∃ arguments main inverse, s = .block path arguments main inverse)

/-- The value that the steps of a path start from on a level: that of the level, or a private
datum. -/
def Level.start? (level : Level) (datum : Option String) : Option Value :=
  datum.elim (some level.value) level.data.get?

/-- How steps lead on from a value: `this` stays at it, and a field goes to what its key has access
to. What comes after a field that leads nowhere, or that cannot be read, is not looked at. -/
inductive Value.Leads : Value → List PathStep → Reading (Option Value) → Prop
  | here {v} : Leads v [] ⟨[], .ok (some v)⟩
  | this {v rest r} : Leads v rest r → Leads v (.this :: rest) r
  | field {v key rest next r} : (v.access key).result = .ok (some next) → Leads next rest r →
      Leads v (.field key :: rest) ⟨(v.access key).reads ++ r.reads, r.result⟩
  | absent {v key rest} : (v.access key).result = .ok none →
      Leads v (.field key :: rest) ⟨(v.access key).reads, .ok none⟩
  | fault {v key rest e} : (v.access key).result = .error e →
      Leads v (.field key :: rest) ⟨(v.access key).reads, .error e⟩

/-! The paths of programs that were read. -/

theorem NormalProgram.tail {x : Statement} {p : Program} (h : NormalProgram (x :: p)) :
    NormalProgram p := by
  obtain ⟨hspaced, hnormal, hmain, hinverse⟩ := h
  exact .intro hspaced.tail (fun s hs => hnormal s (.tail _ hs))
    (fun _ _ _ _ hs => hmain _ _ _ _ (.tail _ hs))
    (fun _ _ _ _ hs => hinverse _ _ _ _ (.tail _ hs))

theorem NormalProgram.normal_of_occurs {p : Program} (h : NormalProgram p) {s : Statement} {d : Nat}
    (hs : Occurs s d p) : s.Normal := by
  induction hs with
  | here => exact h.normal _ (.head _)
  | later _ ih => exact ih h.tail
  | main _ ih => exact ih (h.sectionOf (.main .self (.head _)))
  | inverse _ ih => exact ih (h.sectionOf (.inverse .self (.head _)))

theorem normalProgram_of_parse {source : String} {p : Program} (h : parse source = .ok p) :
    NormalProgram p := by
  obtain ⟨ps, htokens, -, hrun⟩ := exists_tokens h
  have hstart : Nesting.Normal {} := ⟨by simp, normalProgram_nil⟩
  have hend : Nesting.Normal ⟨[], p⟩ :=
    hstart.run (normal_trimPieces htokens.normal false) (htokens.spaced.trimPieces false)
      (by simp) hrun
  exact hend.present

theorem Arguments.Normal.expressions {arguments : Arguments} (h : arguments.Normal) :
    ∀ e ∈ arguments.expressions, e.Normal := by
  intro e he
  rcases List.mem_append.mp he with he | he
  · exact h.positional e he
  · obtain ⟨entry, hentry, rfl⟩ := List.mem_map.mp he
    exact h.named.values entry hentry

theorem Statement.Normal.expressions {s : Statement} (h : s.Normal) :
    ∀ e ∈ s.expressions, e.Normal := by
  cases s with
  | raw text => nofun
  | comment text => nofun
  | tag head arguments escaped => exact List.forall_mem_cons.mpr ⟨h.1, h.2.expressions⟩
  | insertion name context named =>
    intro e he
    rcases List.mem_append.mp he with he | he
    · exact h.2.1 e (Option.mem_toList.mp he)
    · obtain ⟨entry, hentry, rfl⟩ := List.mem_map.mp he
      exact h.2.2.values entry hentry
  | block path arguments main inverse => exact h.2.expressions

/-- Every path of a text that parses has steps in order. -/
theorem HasPath.normal {source : String} {p : Program} (hp : parse source = .ok p) {path : Path}
    (h : HasPath p path) : path.Normal := by
  obtain ⟨s, d, hs, hpath⟩ := h
  have hnormal := (normalProgram_of_parse hp).normal_of_occurs hs
  rcases hpath with hpath | ⟨arguments, main, inverse, rfl⟩
  · exact hnormal.expressions _ hpath
  · exact hnormal.1

/-! Steps in order. -/

/-- The parents of steps in order are those in front of the others. -/
theorem takeWhile_parents (k : Nat) (datum : Option String) {plain : List PathStep}
    (hplain : ∀ x ∈ plain, isPlain x) :
    let steps := List.replicate k .parent ++ (datum.toList.map .datum ++ plain)
    (steps.takeWhile (· == .parent)).length = k ∧
      steps.dropWhile (· == .parent) = datum.toList.map .datum ++ plain := by
  intro steps
  have hparents : ∀ x ∈ List.replicate k PathStep.parent, (x == .parent) = true := by
    intro x hx
    rw [List.eq_of_mem_replicate hx]
    rfl
  obtain ⟨rest, hrest⟩ : ∃ rest, rest = datum.toList.map PathStep.datum ++ plain := ⟨_, rfl⟩
  have hhead : ∀ x ∈ rest.head?, (x == .parent) = false := by
    intro x hx
    rw [hrest] at hx
    rw [beq_eq_false_iff_ne]
    cases datum with
    | some name =>
      cases hx
      nofun
    | none => exact isPlain_ne_parent (hplain x (List.mem_of_head? hx))
  dsimp only [steps]
  rw [← hrest, List.takeWhile_append_of_pos hparents, List.dropWhile_append_of_pos hparents]
  cases rest with
  | nil => exact ⟨by simp, rfl⟩
  | cons x rest =>
    have hx := hhead x rfl
    rw [List.takeWhile_cons_of_neg (by simp [hx]), List.dropWhile_cons_of_neg (by simp [hx])]
    exact ⟨by simp, rfl⟩

theorem Scope.leads_follow (level : Level) (v : Value) {plain : List PathStep}
    (h : ∀ x ∈ plain, isPlain x) : v.Leads plain (follow level v plain) := by
  induction plain generalizing v with
  | nil => exact .here
  | cons x rest ih =>
    obtain ⟨hx, hrest⟩ := List.forall_mem_cons.mp h
    cases x with
    | parent | datum name => cases hx
    | this => exact .this (ih v hrest)
    | field key =>
      rw [follow, step]
      cases hr : (v.access key).result with
      | error e => simpa [Bind.bind, Reading.bind, hr] using .fault hr
      | ok found =>
        cases found with
        | none => simpa [Bind.bind, Reading.bind, hr] using .absent hr
        | some next => simpa [Bind.bind, Reading.bind, hr] using .field hr (ih next hrest)

theorem Value.Leads.unique {v : Value} {steps : List PathStep} {r r' : Reading (Option Value)}
    (h : v.Leads steps r) (h' : v.Leads steps r') : r = r' := by
  induction h generalizing r' with
  | here => cases h'; rfl
  | this _ ih =>
    cases h' with
    | this h' => exact ih h'
  | field hnext _ ih =>
    cases h' with
    | field hnext' h' =>
      rw [hnext] at hnext'
      cases hnext'
      rw [ih h']
    | absent hnone => rw [hnext] at hnone; cases hnone
    | fault hfails => rw [hnext] at hfails; cases hfails
  | absent hnone =>
    cases h' with
    | field hnext' => rw [hnone] at hnext'; cases hnext'
    | absent => rfl
    | fault hfails => rw [hnone] at hfails; cases hfails
  | fault hfails =>
    cases h' with
    | field hnext' => rw [hfails] at hnext'; cases hnext'
    | absent hnone => rw [hfails] at hnone; cases hnone
    | fault hfails' => rw [hfails] at hfails'; cases hfails'; rfl

/-- A key cannot be read off a value where its host object fails to read the field. -/
theorem Value.exists_host_of_error {v : Value} {key : String} {e : HostAccessError}
    (h : (v.access key).result = .error e) :
    ∃ host, (v.access key).reads = [⟨host, key⟩] ∧ host.readField key = .error e := by
  unfold access at h ⊢
  split at h
  next => cases h
  next host _ => exact ⟨host, rfl, h⟩

theorem Value.Leads.last_read {v : Value} {steps : List PathStep} {r : Reading (Option Value)}
    (h : v.Leads steps r) {e : HostAccessError} (he : r.result = .error e) :
    ∃ before host key, r.reads = before ++ [⟨host, key⟩] ∧ host.readField key = .error e := by
  induction h with
  | here => cases he
  | this _ ih => exact ih he
  | field _ _ ih =>
    obtain ⟨before, host, key, hreads, hfails⟩ := ih he
    exact ⟨_, host, key, by rw [hreads, List.append_assoc], hfails⟩
  | absent => cases he
  | fault hfails =>
    cases he
    obtain ⟨host, hreads, hfield⟩ := exists_host_of_error hfails
    exact ⟨[], host, _, hreads, hfield⟩

/-! Scopes. -/

section
variable (s : Scope) (k : Nat) (datum : Option String) {plain : List PathStep}
  (hplain : ∀ x ∈ plain, isPlain x)
include hplain

theorem Scope.resolve_inOrder :
    s.resolve (List.replicate k .parent ++ (datum.toList.map .datum ++ plain)) =
      match s.levels[k]?.bind (·.start? datum) with
      | some v => follow s.level v plain
      | none => pure none := by
  obtain ⟨hlength, hrest⟩ := takeWhile_parents k datum hplain
  have hfollow (l l' : Level) (v : Value) : follow l v plain = follow l' v plain :=
    (leads_follow l v hplain).unique (leads_follow l' v hplain)
  rw [resolve, hlength, hrest, ← map_level_ancestor?]
  cases s.ancestor? k with
  | none => rfl
  | some t =>
    rw [Option.map_some, Option.bind_some]
    cases datum with
    | none => exact hfollow t.level s.level t.value
    | some name =>
      change (pure (t.level.data.get? name) >>= fun found => _) = _
      rw [pure_bind]
      dsimp only [Level.start?, Option.elim_some]
      cases t.level.data.get? name with
      | none => rfl
      | some v => exact hfollow t.level s.level v

end

/-- Paths see one scope of the chain. A path of a text that parses is a run of parents, then at most
one private datum, then fields and `this` only; and in every scope:
* Where the chain has fewer scopes outside than the path has parents, the path leads nowhere, and no
  field is read.
* Else the other steps start from the value of the scope that many steps out, or from the private
  datum there, and lead nowhere at once if that is unset. They are taken from left to right, up to
  the first that leads nowhere or fails.
* The only failure is that of the host object whose field was read last.
* In any two scopes in which the path starts from the same value it reads the same fields, with the
  same result, whatever else the two chains hold. -/
theorem path_sees_one_scope {source : String} {p : Program} (hp : parse source = .ok p)
    {path : Path} (hpath : HasPath p path) :
    ∃ (datum : Option String) (plain : List PathStep),
      path.steps = List.replicate path.climbs .parent ++ (datum.toList.map .datum ++ plain) ∧
      (∀ x ∈ plain, x = .this ∨ ∃ key, x = .field key) ∧
      ∀ s : Scope,
        (s.outer.length < path.climbs → s.resolve path.steps = ⟨[], .ok none⟩) ∧
        (∀ level, s.levels[path.climbs]? = some level →
          (level.start? datum = none → s.resolve path.steps = ⟨[], .ok none⟩) ∧
          ∀ v, level.start? datum = some v → v.Leads plain (s.resolve path.steps)) ∧
        (∀ e, (s.resolve path.steps).result = .error e → ∃ before host key,
          (s.resolve path.steps).reads = before ++ [⟨host, key⟩] ∧
            host.readField key = .error e) ∧
        ∀ s' : Scope, s'.levels[path.climbs]?.bind (·.start? datum) =
            s.levels[path.climbs]?.bind (·.start? datum) →
          s'.resolve path.steps = s.resolve path.steps := by
  obtain ⟨-, k, datum, plain, hsteps, hplain⟩ := HasPath.normal hp hpath
  rw [List.append_assoc] at hsteps
  have hclimbs : path.climbs = k := by
    rw [Path.climbs, hsteps]
    exact (takeWhile_parents k datum hplain).1
  have hresolve (s : Scope) := hsteps ▸ s.resolve_inOrder k datum hplain
  have hleads (s : Scope) {v : Value} (h : s.levels[k]?.bind (·.start? datum) = some v) :
      v.Leads plain (s.resolve path.steps) := by
    rw [hresolve, h]
    exact Scope.leads_follow s.level v hplain
  refine ⟨datum, plain, hclimbs ▸ hsteps, fun x hx => ?_, fun s => ?_⟩
  · have := hplain x hx
    cases x with
    | this => exact .inl rfl
    | field key => exact .inr ⟨key, rfl⟩
    | parent | datum name => cases this
  rw [hclimbs]
  refine ⟨fun hshort => ?_, fun level hlevel => ⟨fun hunset => ?_, fun v hv => hleads s ?_⟩,
    fun e he => ?_, fun s' hs' => ?_⟩
  · have hnone : s.levels[k]? = none := List.getElem?_eq_none hshort
    rw [hresolve, hnone]
    rfl
  · rw [hresolve, hlevel, Option.bind_some, hunset]
    rfl
  · rw [hlevel, Option.bind_some, hv]
  · cases hstart : s.levels[k]?.bind (·.start? datum) with
    | none =>
      rw [hresolve, hstart] at he
      cases he
    | some v => exact (hleads s hstart).last_read he
  · cases hstart : s.levels[k]?.bind (·.start? datum) with
    | none => rw [hresolve, hresolve, hs', hstart]
    | some v => exact (hleads s' (hs'.trans hstart)).unique (hleads s hstart)

/-- A field of a private datum of the scope outside: a root has none outside, and what the present
scope holds does not matter. -/
theorem path_sees_one_scope_datum :
    let path : Path := ⟨[.parent, .datum "row", .this, .field "x"], "@../row.this.x"⟩
    let data : PrivateData := (∅ : PrivateData).insert "row" (.object [("x", .string "a")])
    let s := (Scope.root .null data).child .null ∅
    let s' := (Scope.root .null data).child (.string "b") data
    parse "\x7b\x7b@../row.this.x\x7d\x7d" = .ok [.tag (.path path) {} true] ∧
      (Scope.root .null data).resolve path.steps = ⟨[], .ok none⟩ ∧
      s.resolve path.steps = ⟨[], .ok (some (.string "a"))⟩ ∧
      s'.resolve path.steps = s.resolve path.steps := by
  intro path data s s'
  have hx : SegmentText (.field "x") ['x'] :=
    .field (.bare (by decide) (List.all_eq_true.mp (by decide))) (by decide)
  have hrow : NameText "row".toList "row".toList :=
    .bare (by decide) (List.all_eq_true.mp (by decide))
  have htail : TailText [.this, .field "x"] ".this.x".toList :=
    .cons (.inl rfl) .this (.cons (.inl rfl) hx .nil)
  have hword := (PathText.datum (.parents (.succ (.inr rfl) .zero)) hrow htail).readsWord fun t =>
    numeral?_eq_none (by decide) (by decide) _
  have hp : parse "\x7b\x7b@../row.this.x\x7d\x7d" = .ok [.tag (.path path) {} true] :=
    parse_plainTag (plainTag_words hword (by rintro _ ⟨⟩; decide) .nil)
  obtain ⟨datum, plain, -, -, hall⟩ :=
    path_sees_one_scope hp (show HasPath _ path from ⟨_, 0, .here, .inl (.head _)⟩)
  obtain ⟨hshort, -⟩ := hall (Scope.root .null data)
  obtain ⟨-, -, -, hsame⟩ := hall s
  exact ⟨hp, hshort (by decide), rfl, hsame s' rfl⟩

end Stencil
