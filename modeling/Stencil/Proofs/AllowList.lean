import Stencil.Proofs.Locality

/-!
Templates see host objects through their allow-lists. Values that differ only in fields outside the
allow-lists of host objects are related, and no template tells related values apart.
-/
namespace Stencil
namespace Value

/-- Two values that differ at most in fields that templates may not read. Members are related one by
one; host objects agree in what they show, and in every field that is allowed. -/
inductive Related : Value → Value → Prop
  | refl (v) : Related v v
  | array {xs ys} : List.Forall₂ Related xs ys → Related (.array xs) (.array ys)
  | object {xs ys : List (String × Value)} : xs.map (·.1) = ys.map (·.1) →
      List.Forall₂ Related (xs.map (·.2)) (ys.map (·.2)) → Related (.object xs) (.object ys)
  | host {g h : Host Value} : g.validKeys = h.validKeys → g.fieldNames = h.fieldNames →
      g.display = h.display → Option.Rel (List.Forall₂ Related) g.sequence h.sequence →
      g.mapping.map (·.map (·.1)) = h.mapping.map (·.map (·.1)) →
      Option.Rel (List.Forall₂ Related) (g.mapping.map (·.map (·.2)))
        (h.mapping.map (·.map (·.2))) →
      (∀ key ∈ g.allowedKeys, Agree (Option.Rel Related) (g.readField key) (h.readField key)) →
      Related (.host g) (.host h)

/-- Induction over a value by the elements of sequences. -/
theorem elements_induct {motive : Value → Prop}
    (step : ∀ v, (∀ items, v.elements? = some items → ∀ x ∈ items, motive x) → motive v)
    (v : Value) : motive v := by
  apply step v
  intro items hitems x hx
  have hx' := List.sizeOf_lt_of_mem hx
  have : sizeOf x < sizeOf v := by
    cases v with
    | array xs =>
      obtain rfl : xs = items := by simpa [elements?] using hitems
      simp only [array.sizeOf_spec]
      omega
    | host h =>
      obtain ⟨identity, typeName, validKeys, fieldNames, readField, sequence, mapping, display⟩ := h
      obtain rfl : sequence = some items := by simpa [elements?] using hitems
      simp only [host.sizeOf_spec, Host.mk.sizeOf_spec, Option.some.sizeOf_spec]
      omega
    | null | bool _ | number _ | string _ | object _ => simp [elements?] at hitems
  exact elements_induct step x
  termination_by sizeOf v

/-- Entries with the same keys and related members. -/
theorem forall₂_entryAlike {V : Value → Value → Prop} {xs ys : List (String × Value)}
    (hkeys : xs.map (·.1) = ys.map (·.1)) (h : List.Forall₂ V (xs.map (·.2)) (ys.map (·.2))) :
    List.Forall₂ (EntryAlike V) xs ys := by
  induction xs generalizing ys with
  | nil =>
    cases ys with
    | nil => exact .nil
    | cons y ys => simp at hkeys
  | cons x xs ih =>
    cases ys with
    | nil => simp at hkeys
    | cons y ys =>
      obtain ⟨hkey, hkeys⟩ : x.1 = y.1 ∧ xs.map (·.1) = ys.map (·.1) := by simpa using hkeys
      cases h with
      | cons hv h => exact .cons ⟨hkey, hv⟩ (ih hkeys h)

theorem forall₂_lookup {V : Value → Value → Prop} {xs ys : List (String × Value)}
    (h : List.Forall₂ (EntryAlike V) xs ys) (key : String) :
    Option.Rel V (xs.lookup key) (ys.lookup key) := by
  induction h with
  | nil => exact .none
  | @cons x y _ _ hxy _ ih =>
    obtain ⟨name, v⟩ := x
    obtain ⟨name', w⟩ := y
    obtain ⟨rfl, hv⟩ : name = name' ∧ V v w := hxy
    rw [Entries.lookup_cons, Entries.lookup_cons]
    split
    · exact .some hv
    · exact ih

theorem map_eq_of_forall₂ {α β : Type} {R : α → α → Prop} {f : α → β} {xs ys : List α}
    (h : List.Forall₂ R xs ys) (hf : ∀ x ∈ xs, ∀ y, R x y → f x = f y) : xs.map f = ys.map f := by
  induction h with
  | nil => rfl
  | @cons x y _ _ hxy _ ih =>
    rw [List.map_cons, List.map_cons, hf x (.head _) y hxy, ih fun z hz => hf z (.tail _ hz)]

/-- The text of a value that is a sequence, made of those of its elements. -/
theorem text_array (items : List Value) :
    (Value.array items).text = joinTexts (items.map text) := by
  rw [text, texts_eq_map]

theorem text_host (h : Host Value) :
    (Value.host h).text =
      h.display.getD (h.sequence.elim "" fun xs => joinTexts (xs.map text)) := by
  obtain ⟨identity, typeName, validKeys, fieldNames, readField, sequence, mapping, display⟩ := h
  cases display with
  | some shown => simp [text, hostText]
  | none => cases sequence <;> simp [text, hostText, sequenceText, texts_eq_map]

/-- What an answer gives. -/
def KeyAnswer.reading (key : String) : KeyAnswer → Reading (Option Value)
  | .known found => pure found
  | .field h => Reading.field h key

/-- How a host object answers a key that is no position of its sequence. -/
def keyedAnswer (h : Host Value) (key : String) : KeyAnswer :=
  match h.mapping.bind (·.lookup key) with
  | some found => .known (some found)
  | none => if h.allowedKeys.contains key then .field h else .known none

theorem access_host (h : Host Value) (key : String) :
    (Value.host h).access key =
      match position? key, h.sequence with
      | some i, some items => pure items[i]?
      | _, _ => (keyedAnswer h key).reading key := by
  change (hostAnswer h key).reading key = _
  unfold hostAnswer
  cases position? key with
  | none => rfl
  | some i =>
    cases h.sequence with
    | none => rfl
    | some items => rfl

namespace Related

variable {v w : Value}

theorem elements? (h : Related v w) :
    Option.Rel (List.Forall₂ Related) v.elements? w.elements? := by
  cases h with
  | refl => exact rel_refl (fun items => List.forall₂_same.mpr fun x _ => .refl x) _
  | array h => exact .some h
  | object => exact .none
  | host _ _ _ hsequence => exact hsequence

theorem entries? (h : Related v w) :
    Option.Rel (List.Forall₂ (EntryAlike Related)) v.entries? w.entries? := by
  cases h with
  | refl => exact rel_refl (fun entries => List.forall₂_same.mpr fun x _ => ⟨rfl, .refl _⟩) _
  | array => exact .none
  | object hkeys h => exact .some (forall₂_entryAlike hkeys h)
  | @host g h _ _ _ _ hkeys hmembers =>
    change Option.Rel _ g.mapping h.mapping
    generalize g.mapping = x at hkeys hmembers ⊢
    generalize h.mapping = y at hkeys hmembers ⊢
    cases x with
    | none =>
      cases y with
      | none => exact .none
      | some ys => cases hmembers
    | some xs =>
      cases y with
      | none => cases hmembers
      | some ys =>
        cases hmembers with
        | some hmembers => exact .some (forall₂_entryAlike (by simpa using hkeys) hmembers)

theorem isNull (h : Related v w) : v.isNull = w.isNull := by
  cases h <;> rfl

theorem isTruthy (h : Related v w) : v.isTruthy = w.isTruthy := by
  have helements := h.elements?
  cases h with
  | refl => rfl
  | object => rfl
  | array h => cases h <;> rfl
  | host => exact rel_any helements fun xs ys hxy => by cases hxy <;> rfl

/-- The text of a value is its own, or made of those of its elements. -/
theorem text (h : Related v w) : v.text = w.text := by
  induction v using elements_induct generalizing w with
  | step v ih =>
    have hitems : ∀ xs ys, v.elements? = some xs → List.Forall₂ Related xs ys →
        xs.map Value.text = ys.map Value.text := fun xs ys hxs hxy =>
      map_eq_of_forall₂ hxy fun x hx y hR => ih xs hxs x hx hR
    cases h with
    | refl => rfl
    | object => rfl
    | @array xs ys h => rw [text_array, text_array, hitems xs ys rfl h]
    | @host g h _ _ hdisplay hsequence =>
      rw [text_host, text_host, hdisplay]
      congr 1
      change ∀ xs ys, g.sequence = some xs → _ at hitems
      generalize g.sequence = x at hsequence hitems ⊢
      generalize h.sequence = y at hsequence ⊢
      cases hsequence with
      | none => rfl
      | some hxy => simp only [Option.elim_some, hitems _ _ rfl hxy]

/-- Host objects that allow the same fields and agree in them: a key that is no position stands for
related values. -/
theorem keyed {g h : Host Value} (hallowed : g.allowedKeys = h.allowedKeys)
    (hmapping : Option.Rel (List.Forall₂ (EntryAlike Related)) g.mapping h.mapping) {key : String}
    (hread : key ∈ g.allowedKeys → Agree (Option.Rel Related) (g.readField key) (h.readField key)) :
    Agree (Option.Rel Related) ((keyedAnswer g key).reading key).result
      ((keyedAnswer h key).reading key).result := by
  have hlookup : Option.Rel Related (g.mapping.bind (·.lookup key))
      (h.mapping.bind (·.lookup key)) := by
    generalize g.mapping = x at hmapping ⊢
    generalize h.mapping = y at hmapping ⊢
    cases hmapping with
    | none => exact .none
    | some hxy => exact forall₂_lookup hxy key
  unfold keyedAnswer
  rw [← hallowed]
  generalize g.mapping.bind _ = x at hlookup ⊢
  generalize h.mapping.bind _ = y at hlookup ⊢
  cases hlookup with
  | some hv => exact .ok (.some hv)
  | none =>
    dsimp only
    split
    next hkey => exact hread (List.contains_iff_mem.mp hkey)
    next => exact .ok .none

/-- A position or key stands for related values. -/
theorem access (h : Related v w) (key : String) :
    Agree (Option.Rel Related) (v.access key).result (w.access key).result := by
  have hentries := h.entries?
  cases h with
  | refl => exact .refl (rel_refl .refl) _
  | array h =>
    refine .ok ?_
    cases position? key with
    | none => exact .none
    | some i => exact forall₂_getElem? h i
  | object hkeys h => exact .ok (forall₂_lookup (forall₂_entryAlike hkeys h) key)
  | @host g h hvalid hfields _ hsequence _ _ hread =>
    have hallowed : g.allowedKeys = h.allowedKeys := by
      rw [Host.allowedKeys, Host.allowedKeys, hvalid, hfields]
    have hkeyed := keyed hallowed hentries (hread key)
    rw [access_host, access_host]
    generalize g.sequence = x at hsequence ⊢
    generalize h.sequence = y at hsequence ⊢
    cases hsequence with
    | none => cases position? key <;> exact hkeyed
    | some hxy =>
      cases position? key with
      | none => exact hkeyed
      | some i => exact .ok (forall₂_getElem? hxy i)

end Related

theorem indistinct_related : Indistinct Related where
  refl := .refl
  text := Related.text
  isTruthy := Related.isTruthy
  isNull := Related.isNull
  elements? := Related.elements?
  entries? := Related.entries?
  access := Related.access

end Value

/-- Noninterference. Where only the helpers of every template are called, a template renders to one
result for related values, and each field that it reads is one that its host object allows. -/
theorem render_related {t : Template} {cs : Contexts} (hb : t.OnlyBuiltins cs) {v w : Value}
    (h : v.Related w) :
    ((t.render v).run cs).result = ((t.render w).run cs).result ∧
      ∀ field, (.read field ∈ ((t.render v).run cs).events ∨
        .read field ∈ ((t.render w).run cs).events) → field.key ∈ field.host.allowedKeys := by
  have halike : Render.Alike (fun _ => False) cs cs (· = ·) (t.render v) (t.render w) :=
    alike_render Value.indistinct_related textsAlike_self .eq
      (fun _ _ _ _ _ _ _ => fits_of_onlyBuiltins hb fun _ _ _ _ => ⟨le_top, fun _ _ => trivial⟩) h
  obtain ⟨hright, hagree⟩ := halike.right fun _ _ h => h
  refine ⟨hagree.eq, fun field hfield => ?_⟩
  rcases hfield with hfield | hfield
  · exact halike.left.allowed _ hfield
  · exact hright.allowed _ hfield

/-- Two host objects that differ in a field outside their allow-list. -/
theorem render_related_secret :
    let t : Template :=
      ⟨"\x7b\x7bname\x7d\x7d\x7b\x7blookup this 'secret'\x7d\x7d", {}, .global, none⟩
    let user (secret : Value) : Value := .host
      { identity := 0, typeName := "User", fieldNames := ["name"]
        readField := fun key => .ok (some (if key = "name" then .string "Ann" else secret)) }
    (user .null).Related (user (.string "pass")) ∧
      ((t.render (user .null)).run .empty).result =
        ((t.render (user (.string "pass"))).run .empty).result := by
  intro t user
  have h : (user .null).Related (user (.string "pass")) := by
    refine .host rfl rfl rfl .none rfl .none fun key hkey => ?_
    obtain rfl : key = "name" := by simpa [Host.allowedKeys] using hkey
    exact .ok (.some (.refl _))
  exact ⟨h, (render_related (fun name => rfl) h).1⟩

end Stencil
