import Stencil.Proofs.Scan.Run
import Stencil.Proofs.Written.Word

/-!
Scans that follow cursors. The offset of a cursor and the text of the scan give what the cursor has
still to read; so each step of a cursor can be made by a scan, which runs well and stops at the
same place, or fails with the error of the same fault.
-/
namespace Stencil.Scan

/-! Cuts between characters. -/

theorem dropBytes?_append (before rest : List Char) :
    dropBytes? (before ++ rest) (byteLength before) = some rest := by
  induction before with
  | nil => cases rest <;> rfl
  | cons c before ih =>
    have hc := c.utf8Size_pos
    obtain ⟨n, hn⟩ : ∃ n, c.utf8Size + byteLength before = n + 1 :=
      ⟨c.utf8Size + byteLength before - 1, by omega⟩
    have hrest : n + 1 - c.utf8Size = byteLength before := by omega
    rw [List.cons_append, byteLength_cons, hn, dropBytes?, if_pos (by omega), hrest, ih]

theorem takeBytes?_append (front rest : List Char) :
    takeBytes? (front ++ rest) (byteLength front) = some front := by
  induction front with
  | nil => cases rest <;> rfl
  | cons c front ih =>
    have hc := c.utf8Size_pos
    obtain ⟨n, hn⟩ : ∃ n, c.utf8Size + byteLength front = n + 1 :=
      ⟨c.utf8Size + byteLength front - 1, by omega⟩
    have hrest : n + 1 - c.utf8Size = byteLength front := by omega
    rw [List.cons_append, byteLength_cons, hn, takeBytes?, if_pos (by omega), hrest, ih]
    rfl

theorem isSome_dropBytes? {text : List Char} {o : Nat} :
    (dropBytes? text o).isSome ↔ IsBoundary text o := by
  constructor
  · fun_induction dropBytes? text o with
    | case1 text => exact fun _ => ⟨[], List.nil_prefix, rfl⟩
    | case2 => intro h; cases h
    | case3 c rest n hle ih =>
      intro h
      obtain ⟨before, hbefore, hlength⟩ := ih h
      refine ⟨c :: before, List.cons_prefix_cons.mpr ⟨rfl, hbefore⟩, ?_⟩
      rw [byteLength_cons, hlength]
      omega
    | case4 => intro h; cases h
  · rintro ⟨before, ⟨rest, rfl⟩, rfl⟩
    rw [dropBytes?_append]
    rfl

/-- Nothing can be cut inside of a character. -/
example : dropBytes? ['é', 'a'] 1 = none := by decide

variable {α β γ σ ρ : Type} {text : List Char} {c d : Cursor}

/-- `m` runs well from the place of `c`, and ends as the reader with the result `r` there: with the
value that `view` gives, at the same place, and with what `settle` makes of the state; or with the
error of the same fault, and with as many open blocks as before. -/
def Follows (text : List Char) (view : β → α) (settle : β → State → State) (m : Scan α) (c : Cursor)
    (r : Except Fault (β × Cursor)) : Prop :=
  (Cursor.start text).LeadsTo c → ∀ s : State, s.mark = c.mark → Runs text m s fun result t =>
    match r with
    | .ok (b, d) =>
      result = .ok (view b) ∧ t = settle b { s with mark := d.mark } ∧ c.LeadsTo d
    | .error f => result = .error (f.error text) ∧ t.depth = s.depth

/-- `m` runs well and ends as the reader with the result `r`, without a trace but the cursor. -/
abbrev Reads (text : List Char) (m : Scan α) (c : Cursor) (r : Except Fault (α × Cursor)) : Prop :=
  Follows text id (fun _ s => s) m c r

section
variable {view : β → α} {settle : β → State → State} {m : Scan α}

/-- A step that does not fail and stays where it is. -/
theorem Follows.of_gives {m : Scan α} {a : α}
    (h : ∀ s : State, s.mark = c.mark → Gives text m s a s) : Reads text m c (.ok (a, c)) :=
  fun _ s hs => (h s hs).mono fun _ _ ⟨hr, ht⟩ => ⟨hr, by rw [ht, ← hs], .refl c⟩

theorem reads_pure (a : α) (c : Cursor) : Reads text (pure a) c (.ok (a, c)) :=
  .of_gives fun _ _ => runs_pure ⟨rfl, rfl⟩

theorem Follows.bind {m : Scan γ} {k : γ → Scan α} {r : Except Fault (γ × Cursor)}
    {g : γ × Cursor → Except Fault (β × Cursor)} (h : Reads text m c r)
    (next : ∀ a d, r = .ok (a, d) → Follows text view settle (k a) d (g (a, d))) :
    Follows text view settle (m >>= k) c (r >>= g) := by
  intro hc s hs
  cases r with
  | error f =>
    exact (h hc s hs).bind (fun _ _ hok => nomatch hok.1) fun e t he => by
      obtain ⟨he, ht⟩ := he
      cases he
      exact ⟨rfl, ht⟩
  | ok p =>
    obtain ⟨a, d⟩ := p
    refine (h hc s hs).bind (fun b t hb => ?_) fun _ _ he => nomatch he.1
    obtain ⟨hb, rfl, hd⟩ := hb
    cases hb
    refine (next a d rfl (hc.trans hd) { s with mark := d.mark } rfl).mono fun result t ht => ?_
    change match g (a, d) with
      | .ok (b, d) => _
      | .error f => _
    split
    next b e hg =>
      rw [hg] at ht
      exact ⟨ht.1, ht.2.1, hd.trans ht.2.2⟩
    next f hg =>
      rw [hg] at ht
      exact ht

/-- A step that cannot fail. -/
theorem Follows.andThen {m : Scan γ} {k : γ → Scan α} {a : γ} {r : Except Fault (β × Cursor)}
    (h : Reads text m c (.ok (a, d))) (next : Follows text view settle (k a) d r) :
    Follows text view settle (m >>= k) c r :=
  Follows.bind (g := fun _ => r) h fun _ _ hr => by
    cases hr
    exact next

/-- A step that fails. -/
theorem Follows.failed {m : Scan γ} {k : γ → Scan α} {f : Fault}
    (h : Reads text m c (.error f)) : Follows text view settle (m >>= k) c (.error f) :=
  Follows.bind (g := fun _ => .error f) h nofun

/-- What was to be read may be taken to be a place of the text. -/
theorem Follows.within {r : Except Fault (β × Cursor)}
    (h : (Cursor.start text).LeadsTo c → Follows text view settle m c r) :
    Follows text view settle m c r := fun hc => h hc hc

end

/-! Looking at the text. -/

theorem reads_offset (c : Cursor) : Reads text offset c (.ok (c.mark.offset, c)) :=
  .of_gives fun s hs => by
    rw [← hs]
    exact gives_offset

theorem reads_context (c : Cursor) :
    Reads text context c (.ok (⟨text, byteLength text + 1⟩, c)) :=
  .of_gives fun _ _ => gives_context

theorem reads_note {e : Event} (he : e.Sound text) (c : Cursor) :
    Reads text (note e) c (.ok ((), c)) := .of_gives fun _ _ => gives_note he

theorem reads_minus {a b : Nat} (h : b ≤ a) (c : Cursor) :
    Reads text (minus a b) c (.ok (a - b, c)) := .of_gives fun _ _ => gives_minus h

theorem isBoundary_byteLength (before rest : List Char) :
    IsBoundary (before ++ rest) (byteLength before) := ⟨before, ⟨rest, rfl⟩, rfl⟩

/-- What is cut out of the text stands in it. -/
theorem reads_cut {before shown after : List Char} (htext : text = before ++ shown ++ after)
    (c : Cursor) :
    Reads text (cut (byteLength before) (byteLength before + byteLength shown)) c
      (.ok (shown, c)) := by
  have hsound :
      (Event.cut (byteLength before) (byteLength before + byteLength shown)).Sound text := by
    refine ⟨Nat.le_add_right _ _, ?_, ?_⟩
    · rw [htext, List.append_assoc]
      exact isBoundary_byteLength _ _
    · rw [htext, ← byteLength_append]
      exact isBoundary_byteLength _ _
  have hcut : (dropBytes? text (byteLength before)).bind (takeBytes? · (byteLength shown)) =
      some shown := by
    rw [htext, List.append_assoc, dropBytes?_append, Option.bind_some, takeBytes?_append]
  refine .andThen (reads_note hsound c) (.andThen (reads_minus (Nat.le_add_right _ _) c)
    (.andThen (reads_context c) ?_))
  rw [Nat.add_sub_cancel_left]
  simp only [hcut]
  exact reads_pure shown c

/-- A run of the text behind a place. -/
theorem reads_cut_behind (hd : (Cursor.start text).LeadsTo d) {s rest : List Char}
    (h : d.rest = s ++ rest) (c : Cursor) :
    Reads text (cut d.mark.offset (d.mark.offset + byteLength s)) c (.ok (s, c)) := by
  obtain ⟨before, htext, -, hoffset⟩ := Cursor.exists_before hd
  rw [hoffset]
  exact reads_cut (by rw [htext, h, List.append_assoc]) c

theorem reads_cutFrom (hd : (Cursor.start text).LeadsTo d) {s rest : List Char}
    (h : d.rest = s ++ rest) (c : Cursor) :
    Reads text (cutFrom (d.mark.offset + byteLength s)) c (.ok (rest, c)) := by
  obtain ⟨before, htext, -, hoffset⟩ := Cursor.exists_before hd
  have hlength : byteLength text = byteLength (before ++ s) + byteLength rest := by
    rw [htext, h]
    simp only [byteLength_append, Nat.add_assoc]
  refine .andThen (reads_context c) ?_
  rw [hoffset, hlength, ← byteLength_append]
  have hsplit : text = before ++ s ++ rest ++ [] := by rw [htext, h]; simp
  exact reads_cut hsplit c

theorem reads_ahead (c : Cursor) : Reads text ahead c (.ok (c.rest, c)) :=
  .within fun hc => .andThen (reads_offset c) (reads_cutFrom (s := []) hc rfl c)

theorem reads_peekChar (c : Cursor) : Reads text peekChar c (.ok (c.rest.head?, c)) :=
  .andThen (reads_ahead c) (reads_pure _ c)

theorem reads_peek (word : List Char) (c : Cursor) :
    Reads text (peek word) c (.ok (c.follows word, c)) :=
  .andThen (reads_ahead c) (reads_pure _ c)

theorem reads_atEnd (c : Cursor) : Reads text atEnd c (.ok (c.rest.isEmpty, c)) := by
  refine .within fun hc => .andThen (reads_context c) (.andThen (reads_offset c) ?_)
  obtain ⟨before, htext, -, hoffset⟩ := Cursor.exists_before hc
  have hend : decide (byteLength text ≤ c.mark.offset) = c.rest.isEmpty := by
    rw [htext, hoffset, byteLength_append]
    cases h : c.rest with
    | nil => simp
    | cons x rest =>
      have := byteLength_pos (List.cons_ne_nil x rest)
      simp only [List.isEmpty_cons, decide_eq_false_iff_not]
      omega
  simp only [hend]
  exact reads_pure _ c

theorem reads_runLength (p : Char → Bool) {s rest : List Char} (h : c.rest = s ++ rest) :
    Reads text (runLength p (byteLength s)) c (.ok (byteLength (rest.takeWhile p), c)) := by
  refine .within fun hc => .andThen (reads_offset c) (.andThen (reads_cutFrom hc h c)
    (.andThen (reads_note ?_ c) (reads_pure _ c)))
  obtain ⟨before, htext, -, hoffset⟩ := Cursor.exists_before hc
  have hsplit : text = before ++ s ++ rest.takeWhile p ++ rest.dropWhile p := by
    rw [htext, h, List.append_assoc _ _ (rest.dropWhile p), List.takeWhile_append_dropWhile,
      List.append_assoc]
  refine ⟨before ++ s ++ rest.takeWhile p, ⟨_, hsplit.symm⟩, ?_⟩
  rw [hoffset, byteLength_append, byteLength_append]

/-! Errors. -/

theorem isSome_dropBytes?_iff_mem {o : Nat} :
    (dropBytes? text o).isSome ↔ o ∈ boundaries (String.ofList text) :=
  isSome_dropBytes?.trans mem_boundaries_ofList.symm

/-- On the way back, no boundary is passed by. -/
theorem reads_boundaryBefore {o b : Nat}
    (h : IsGreatest { b ∈ boundaries (String.ofList text) | b ≤ o } b) (ho : o ≤ byteLength text)
    (c : Cursor) : Reads text (boundaryBefore o) c (.ok (b, c)) := by
  refine .of_gives fun s _ => Runs.iterate (fun p t => t = s ∧ b ≤ p ∧ p ≤ o) (fun p _ => p)
    (fun p t ⟨ht, hle, hge⟩ => ?_) ⟨rfl, h.1.2, Nat.le_refl _⟩ ho
  refine Runs.andThen gives_context ?_
  by_cases hp : (dropBytes? text p).isSome
  · rw [if_pos hp]
    have hpb : p ≤ b := h.2 ⟨isSome_dropBytes?_iff_mem.mp hp, hge⟩
    exact runs_pure ⟨congrArg _ (Nat.le_antisymm hpb hle), ht⟩
  · rw [if_neg hp]
    have hne : p ≠ b := fun hpb => hp (isSome_dropBytes?_iff_mem.mpr (hpb ▸ h.1.1))
    exact Runs.andThen (gives_minus (by omega)) (runs_pure ⟨⟨ht, by omega, by omega⟩, by omega⟩)

theorem reads_boundaryAfter {o b : Nat}
    (h : IsLeast { b ∈ boundaries (String.ofList text) | o ≤ b } b) (c : Cursor) :
    Reads text (boundaryAfter o) c (.ok (b, c)) := by
  have hend : b ≤ byteLength text := by
    obtain ⟨before, hbefore, rfl⟩ := mem_boundaries_ofList.mp h.1.1
    exact byteLength_le_of_prefix hbefore
  refine .of_gives fun s _ => Runs.iterate (fun p t => t = s ∧ o ≤ p ∧ p ≤ b)
    (fun p _ => byteLength text - p) (fun p t ⟨ht, hge, hle⟩ => ?_) ⟨rfl, Nat.le_refl _, h.1.2⟩
    (Nat.sub_le _ _)
  refine Runs.andThen gives_context ?_
  by_cases hp : (dropBytes? text p).isSome
  · rw [if_pos hp]
    have hbp : b ≤ p := h.2 ⟨isSome_dropBytes?_iff_mem.mp hp, hge⟩
    exact runs_pure ⟨congrArg _ (Nat.le_antisymm hle hbp), ht⟩
  · rw [if_neg hp]
    have hne : p ≠ b := fun hpb => hp (isSome_dropBytes?_iff_mem.mpr (hpb ▸ h.1.1))
    exact runs_pure ⟨⟨ht, by omega, by omega⟩, by omega⟩

theorem reads_surroundings {before after : List Char} (htext : text = before ++ after)
    (c : Cursor) :
    Reads text (surroundings (byteLength before)) c
      (.ok (window text (byteLength before), c)) := by
  obtain ⟨left, shown, right, hsplit, hwindow, hstart, hstop⟩ := exists_window before after
  rw [← htext] at hsplit hwindow hstart hstop
  rw [Nat.min_comm, byteLength_append left shown] at hstop
  have hbefore : byteLength before ≤ byteLength text :=
    byteLength_le_of_prefix ⟨after, htext.symm⟩
  rw [hwindow]
  refine .andThen (reads_boundaryBefore hstart (Nat.le_trans (Nat.sub_le _ _) hbefore) c) ?_
  exact .andThen (reads_context c) (.andThen (reads_boundaryAfter hstop c)
    (.andThen (reads_cut hsplit c) (reads_pure _ c)))

theorem lineStart_le {before : List Char} {m : Mark} (h : m = Mark.past {} before) :
    m.lineStart ≤ m.offset := by
  rw [h, Mark.past_eq_locate before []]
  exact Nat.sub_le _ _

variable {view : β → α} {settle : β → State → State}

/-- A failure at the cursor, whose mark is kept. -/
theorem follows_fail (kind : ParseFailure) (c : Cursor) :
    Follows text view settle (fail kind) c (.error (c.fault kind)) := by
  intro hc s hs
  obtain ⟨before, htext, hmark, hoffset⟩ := Cursor.exists_before hc
  have hwindow := reads_surroundings htext c hc s hs
  refine Runs.andThen gives_state ?_
  rw [hs]
  refine Runs.andThen (gives_minus (lineStart_le hmark)) ?_
  rw [hoffset]
  refine hwindow.bind (fun w t hw => ?_) fun _ _ hw => nomatch hw.1
  obtain ⟨hw, rfl, -⟩ := hw
  cases hw
  refine runs_ofExcept ⟨?_, rfl⟩
  simp only [Fault.error, Cursor.fault, Place.mark, Mark.column, hoffset, id]

/-- A failure at the offset of a place, whose mark is found again. -/
theorem follows_failAt (hd : (Cursor.start text).LeadsTo d) (kind : ParseFailure) (c : Cursor) :
    Follows text view settle (failAt d.mark.offset kind) c
      (.error ⟨.earlier d.mark.offset, kind⟩) := by
  intro hc s hs
  obtain ⟨before, htext, -, hoffset⟩ := Cursor.exists_before hd
  have hwindow := reads_surroundings htext c hc s hs
  have hcut : Reads text (cut 0 (byteLength before)) c (.ok (before, c)) := by
    have hsplit : text = [] ++ before ++ d.rest := htext
    simpa using reads_cut hsplit c
  have hline : byteLength (before.reverse.dropWhile (· != '\n')) =
      byteLength before - byteLength (before.reverse.takeWhile (· != '\n')) := by
    have hsum := byteLength_append (before.reverse.takeWhile (· != '\n'))
      (before.reverse.dropWhile (· != '\n'))
    rw [List.takeWhile_append_dropWhile, byteLength_reverse] at hsum
    omega
  rw [hoffset]
  refine (hcut hc s hs).bind (fun shown t hshown => ?_) fun _ _ h => nomatch h.1
  obtain ⟨hshown, rfl, -⟩ := hshown
  cases hshown
  refine Runs.andThen (gives_minus (by rw [id, hline]; exact Nat.sub_le _ _)) ?_
  rw [← hs]
  refine hwindow.bind (fun w t hw => ?_) fun _ _ hw => nomatch hw.1
  obtain ⟨hw, rfl, -⟩ := hw
  cases hw
  refine runs_ofExcept ⟨?_, rfl⟩
  have hbefore : charsBefore text (byteLength before) = before := by
    rw [htext]
    exact charsBefore_append before d.rest
  simp only [Fault.error, Place.mark, Mark.locate, Mark.column, hbefore, hline, id]

/-! Steps of the cursor. -/

theorem reads_moveTo (h : c.LeadsTo d) {mark : Mark} (hmark : mark = d.mark) :
    Reads text (moveTo mark) c (.ok ((), d)) := by
  subst hmark
  intro hc s hs
  have hsound : (Event.moved d.mark.offset).Sound text := (hc.trans h).isBoundary
  exact Runs.andThen gives_update ((gives_note hsound).mono fun _ _ ⟨hr, ht⟩ => ⟨hr, ht, h⟩)

theorem reads_advance {x : Char} {rest : List Char} (h : c.rest = x :: rest) :
    Reads text (advance x) c (.ok ((), c.advance 1)) := by
  intro hc s hs
  refine Runs.andThen gives_state
    (reads_moveTo (c.leadsTo_advance 1) ?_ hc s hs)
  simp [Cursor.advance, h, hs]

theorem past_of_notMem {s : List Char} (h : '\n' ∉ s) (m : Mark) :
    m.past s = { m with offset := m.offset + byteLength s } := by
  induction s generalizing m with
  | nil => rfl
  | cons c s ih =>
    rw [List.mem_cons, not_or] at h
    rw [Mark.past_cons, ih h.2, Mark.next, if_neg (Ne.symm h.1)]
    simp only [byteLength_cons, Nat.add_assoc]

theorem reads_skip {s rest : List Char} (h : c.rest = s ++ rest) (hline : '\n' ∉ s) :
    Reads text (skip (byteLength s)) c (.ok ((), c.advance s.length)) := by
  intro hc t ht
  refine Runs.andThen gives_state
    (reads_moveTo (c.leadsTo_advance s.length) ?_ hc t ht)
  rw [Cursor.advance, h, List.take_left, past_of_notMem hline, ht]

/-! Loops. -/

/-- What a round of a loop comes to, where the whole loop follows a reader with the results `F`: it
has read on, and the rest of the loop has the same result; or it ends the loop with that result. -/
inductive Turns (text : List Char) (body : σ → Scan (Turn σ ρ))
    (F : σ → Cursor → Except Fault (ρ × Cursor)) (a : σ) (c : Cursor) : Prop
  | again {b d} : Reads text (body a) c (.ok (.again b, d)) → d.rest.length < c.rest.length →
      F a c = F b d → Turns text body F a c
  | done {x d} : Reads text (body a) c (.ok (.done x, d)) → F a c = .ok (x, d) →
      Turns text body F a c
  | failed {f} : Reads text (body a) c (.error f) → F a c = .error f → Turns text body F a c

theorem reads_loop {body : σ → Scan (Turn σ ρ)} {F : σ → Cursor → Except Fault (ρ × Cursor)}
    (turns : ∀ a c, (Cursor.start text).LeadsTo c → Turns text body F a c) (name : Loop) (a : σ)
    (c : Cursor) : Reads text (loop name body a) c (F a c) := by
  intro hc s hs
  refine Runs.loop
    (fun b t => ∃ d, c.LeadsTo d ∧ t = { s with mark := d.mark } ∧ F b d = F a c)
    (fun b t ⟨d, hd, ht, _⟩ => ?_) (fun b t ⟨d, hd, ht, hF⟩ => ?_) ⟨c, .refl c, by rw [← hs], rfl⟩
  · obtain ⟨before, htext, -, hoffset⟩ := Cursor.exists_before (hc.trans hd)
    rw [ht, hoffset, htext, byteLength_append]
    exact Nat.le_add_right _ _
  · subst ht
    have hcd := hc.trans hd
    cases turns b d hcd with
    | @again b' d' hbody hshort hnext =>
      refine (hbody hcd _ rfl).mono fun r t ht => ?_
      obtain ⟨rfl, rfl, hd'⟩ := ht
      exact ⟨⟨d', hd.trans hd', rfl, hnext.symm.trans hF⟩, hd'.offset_lt hshort⟩
    | @done x d' hbody hnext =>
      refine (hbody hcd _ rfl).mono fun r t ht => ?_
      obtain ⟨rfl, rfl, hd'⟩ := ht
      rw [← hF, hnext]
      exact ⟨rfl, rfl, hd.trans hd'⟩
    | @failed f hbody hnext =>
      refine (hbody hcd _ rfl).mono fun r t ht => ?_
      obtain ⟨rfl, ht⟩ := ht
      rw [← hF, hnext]
      exact ⟨rfl, ht⟩

theorem length_advance_lt {n : Nat} {x : Char} {rest : List Char} (h : c.rest = x :: rest) :
    (c.advance (n + 1)).rest.length < c.rest.length := by
  simp only [Cursor.rest_advance, h, List.length_drop, List.length_cons]
  omega

/-- All characters that start within a number of bytes are passed. -/
theorem reads_stretch {s rest : List Char} (h : c.rest = s ++ rest) :
    Reads text (stretch (byteLength s)) c (.ok ((), c.advance s.length)) := by
  obtain ⟨length, hlength⟩ : ∃ length, byteLength s = length := ⟨_, rfl⟩
  obtain rfl : charsBefore c.rest length = s := by rw [h, ← hlength, charsBefore_append]
  rw [hlength]
  refine .andThen (reads_offset c) ?_
  generalize hstop : c.mark.offset + length = stop
  have hlength : length = stop - c.mark.offset := by omega
  rw [hlength]
  refine reads_loop (F := fun _ d =>
    .ok ((), d.advance (charsBefore d.rest (stop - d.mark.offset)).length))
    (fun _ d hd => ?_) .stretch () c
  obtain ⟨m, s⟩ := d
  by_cases hend : m.offset < stop
  · cases s with
    | nil =>
      refine .done (x := ()) (.andThen (reads_offset _) ?_) rfl
      rw [if_pos hend]
      exact .andThen (reads_peekChar _) (reads_pure _ _)
    | cons x rest =>
      refine .again (b := ()) (d := (Cursor.mk m (x :: rest)).advance 1)
        (.andThen (reads_offset _) ?_) (length_advance_lt rfl) ?_
      · rw [if_pos hend]
        exact .andThen (reads_peekChar _) (.andThen (reads_advance rfl) (reads_pure _ _))
      · have hsize : stop - (m.offset + byteLength [x]) = stop - m.offset - x.utf8Size :=
          Nat.sub_add_eq _ _ _
        simp only [charsBefore, if_neg (show ¬ stop - m.offset = 0 by omega), Cursor.advance_cons,
          past_offset, hsize]
        rfl
  · have hnone : charsBefore s (stop - m.offset) = [] := by
      rw [show stop - m.offset = 0 by omega]
      cases s <;> rfl
    refine .done (x := ()) (.andThen (reads_offset _) ?_) (by rw [hnone])
    rw [if_neg hend]
    exact reads_pure _ _

theorem reads_space (c : Cursor) : Reads text space c (.ok ((), c.skipSpace)) := by
  refine reads_loop (F := fun _ d => .ok ((), d.skipSpace)) (fun _ d _ => ?_) .space () c
  obtain ⟨m, s⟩ := d
  cases s with
  | nil =>
    exact .done (x := ()) (.andThen (reads_peekChar _) (reads_pure _ _))
      (by rw [Cursor.skipSpace_stop [] (by simp [Stops])])
  | cons x rest =>
    by_cases hx : isSpace x
    · refine .again (b := ()) (d := (Cursor.mk m (x :: rest)).advance 1)
        (.andThen (reads_peekChar _) ?_) (length_advance_lt rfl) ?_
      · simp only [List.head?_cons, hx, if_true]
        exact .andThen (reads_advance rfl) (reads_pure _ _)
      · rw [Cursor.skipSpace_cons hx]
        rfl
    · refine .done (x := ()) (.andThen (reads_peekChar _) ?_)
        (by rw [Cursor.skipSpace_stop _ (stops_cons.mpr (by simpa using hx))])
      simp only [List.head?_cons, hx]
      exact reads_pure _ _

/-! Words that are expected. -/

section
variable {yes no : Scan α} {r : Except Fault (β × Cursor)} {word : List Char}

theorem Follows.ifPeek
    (hyes : c.follows word = true → Follows text view settle yes c r)
    (hno : c.follows word = false → Follows text view settle no c r) :
    Follows text view settle (peek word >>= fun found => if found then yes else no) c r := by
  refine .andThen (reads_peek word c) ?_
  cases h : c.follows word with
  | true => exact hyes h
  | false => exact hno h

theorem Follows.ifPeek_pos (h : c.follows word = true) (hyes : Follows text view settle yes c r) :
    Follows text view settle (peek word >>= fun found => if found then yes else no) c r :=
  .ifPeek (fun _ => hyes) fun hno => nomatch h.symm.trans hno

theorem Follows.ifPeek_neg (h : c.follows word = false) (hno : Follows text view settle no c r) :
    Follows text view settle (peek word >>= fun found => if found then yes else no) c r :=
  .ifPeek (fun hyes => nomatch h.symm.trans hyes) fun _ => hno

theorem exists_of_follows (h : c.follows word) : ∃ rest, c.rest = word ++ rest := by
  obtain ⟨rest, hrest⟩ := List.isPrefixOf_iff_prefix.mp h
  exact ⟨rest, hrest.symm⟩

theorem reads_consume (hline : '\n' ∉ word) (c : Cursor) :
    Reads text (consume word) c
      (.ok (c.follows word, if c.follows word then c.advance word.length else c)) := by
  refine .ifPeek (fun h => ?_) fun h => ?_
  · obtain ⟨rest, hrest⟩ := exists_of_follows h
    rw [h, if_pos rfl]
    exact .andThen (reads_skip hrest hline) (reads_pure _ _)
  · rw [h]
    exact reads_pure _ c

theorem Follows.ifConsume (hline : '\n' ∉ word)
    (hyes : c.follows word = true → Follows text view settle yes (c.advance word.length) r)
    (hno : c.follows word = false → Follows text view settle no c r) :
    Follows text view settle (consume word >>= fun found => if found then yes else no) c r := by
  have hread : Reads text (consume word) c _ := reads_consume hline c
  cases h : c.follows word with
  | true =>
    rw [h, if_pos rfl] at hread
    exact .andThen hread (hyes h)
  | false =>
    rw [h] at hread
    exact .andThen hread (hno h)

/-- A word of characters of one byte each, none of which ends a line. -/
def PlainWord (word : List Char) : Prop := '\n' ∉ word ∧ byteLength word = word.length

instance : DecidablePred PlainWord := fun word =>
  inferInstanceAs (Decidable ('\n' ∉ word ∧ byteLength word = word.length))

theorem Follows.bindExpect (hword : PlainWord word) {k : Unit → Scan α}
    {g : Cursor → Except Fault (β × Cursor)}
    (next : ∀ d, Follows text view settle (k ()) d (g d)) :
    Follows text view settle (expect word >>= k) c (c.expect word >>= g) := by
  have hread : Reads text (expect word) c ((c.expect word).map fun d => ((), d)) := by
    refine .ifConsume hword.1 (fun h => ?_) fun h => ?_
    · rw [Cursor.expect, if_pos h]
      exact reads_pure () _
    · rw [Cursor.expect, if_neg (by simp [h])]
      refine .andThen (reads_atEnd c) ?_
      split
      · exact follows_fail _ c
      · refine .andThen (reads_ahead c) ?_
        rw [hword.2]
        exact follows_fail _ c
  have hbind := hread.bind (k := k) (g := fun p => g p.2) fun _ d _ => next d
  cases h : c.expect word with
  | error f =>
    rw [h] at hbind
    exact hbind
  | ok d =>
    rw [h] at hbind
    exact hbind

end

end Stencil.Scan
