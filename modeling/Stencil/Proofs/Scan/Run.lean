import Stencil.Proofs.Scan
import Stencil.Proofs.ErrorLocation

/-!
How scans run. A scan runs well when it has a result and all that it does is sound: it cuts the text
only between characters, and moves forward where it repeats itself or reads a part. Such runs are
put together from their steps; a reader of cursors is followed by a scan that runs well and comes to
the same value at the same place, or to the error of the same fault.
-/
namespace Stencil

/-- An offset at which a character of `text` starts, or at which `text` ends. -/
def IsBoundary (text : List Char) (o : Nat) : Prop :=
  ∃ before, before <+: text ∧ byteLength before = o

theorem past_offset (m : Mark) (s : List Char) : (m.past s).offset = m.offset + byteLength s := by
  induction s generalizing m with
  | nil => rfl
  | cons c s ih =>
    rw [Mark.past_cons, ih, byteLength_cons, ← Nat.add_assoc]
    congr 1
    rw [Mark.next]
    split <;> rfl

namespace Cursor

variable {c d : Cursor} {text : List Char}

theorem LeadsTo.offset_lt (h : c.LeadsTo d) (hshort : d.rest.length < c.rest.length) :
    c.mark.offset < d.mark.offset := by
  obtain ⟨s, hs, hmark⟩ := h
  have hne : s ≠ [] := by
    rintro rfl
    rw [hs, List.nil_append] at hshort
    exact Nat.lt_irrefl _ hshort
  have := byteLength_pos hne
  rw [hmark, past_offset]
  omega

/-- A place of a text stands behind the bytes that it counts. -/
theorem exists_before (h : (start text).LeadsTo c) :
    ∃ before, text = before ++ c.rest ∧ c.mark = Mark.past {} before ∧
      c.mark.offset = byteLength before := by
  obtain ⟨before, htext, hmark⟩ := h
  refine ⟨before, htext, hmark, ?_⟩
  rw [hmark, past_offset]
  exact Nat.zero_add _

theorem LeadsTo.isBoundary (h : (start text).LeadsTo c) : IsBoundary text c.mark.offset := by
  obtain ⟨before, htext, -, hoffset⟩ := exists_before h
  exact ⟨before, ⟨c.rest, htext.symm⟩, hoffset.symm⟩

end Cursor

namespace Scan

/-- What is asked of every event of a scan. -/
def Event.Sound (text : List Char) : Event → Prop
  | .moved o | .found o => IsBoundary text o
  | .cut start stop => start ≤ stop ∧ IsBoundary text start ∧ IsBoundary text stop
  | .repeated _ start stop | .read _ start stop => start < stop

/-- `m` has a result from `s`, every event of it is sound, and `post` holds of the result and of the
state it leaves. -/
def Runs {α : Type} (text : List Char) (m : Scan α) (s : State)
    (post : Except ParseError α → State → Prop) : Prop :=
  ∃ o, m ⟨text, byteLength text + 1⟩ s = some o ∧ (∀ e ∈ o.events, e.Sound text) ∧
    post o.result o.state

variable {α β γ σ ρ : Type} {text : List Char} {m : Scan α} {s t : State}

section
variable {post mid : Except ParseError α → State → Prop}

theorem Runs.mono (h : Runs text m s mid) (hpost : ∀ r t, mid r t → post r t) :
    Runs text m s post := by
  obtain ⟨o, ho, hevents, hmid⟩ := h
  exact ⟨o, ho, hevents, hpost _ _ hmid⟩

theorem runs_ofExcept {r : Except ParseError α} (h : post r s) : Runs text (ofExcept r) s post :=
  ⟨⟨r, s, []⟩, rfl, by simp, h⟩

theorem runs_pure {a : α} (h : post (.ok a) s) : Runs text (pure a) s post := runs_ofExcept h

end

theorem Runs.attempt {mid : Except ParseError α → State → Prop} (h : Runs text m s mid) :
    Runs text (attempt m) s fun r t => ∃ r', r = .ok r' ∧ mid r' t := by
  obtain ⟨o, ho, hevents, hmid⟩ := h
  exact ⟨{ o with result := .ok o.result }, by simp [Scan.attempt, ho], hevents, _, rfl, hmid⟩

theorem Runs.bind {mid : Except ParseError α → State → Prop}
    {post : Except ParseError β → State → Prop} {f : α → Scan β} (h : Runs text m s mid)
    (next : ∀ a t, mid (.ok a) t → Runs text (f a) t post)
    (failed : ∀ e t, mid (.error e) t → post (.error e) t) : Runs text (m >>= f) s post := by
  obtain ⟨⟨r, t, events⟩, ho, hevents, hmid⟩ := h
  cases r with
  | error e =>
    refine ⟨⟨.error e, t, events⟩, ?_, hevents, failed e t hmid⟩
    simp [Bind.bind, Scan.bind, ho]
  | ok a =>
    obtain ⟨o, hf, hmore, hpost⟩ := next a t hmid
    refine ⟨{ o with events := events ++ o.events }, ?_, ?_, hpost⟩
    · simp [Bind.bind, Scan.bind, ho, hf]
    · intro e he
      rcases List.mem_append.mp he with he | he
      · exact hevents e he
      · exact hmore e he

/-! Steps that do not fail. -/

/-- `m` runs well from `s`, with the value `a`, and leaves the state `t`. -/
abbrev Gives (text : List Char) (m : Scan α) (s : State) (a : α) (t : State) : Prop :=
  Runs text m s fun r t' => r = .ok a ∧ t' = t

theorem Runs.andThen {post : Except ParseError β → State → Prop} {f : α → Scan β} {a : α}
    (h : Gives text m s a t) (next : Runs text (f a) t post) : Runs text (m >>= f) s post :=
  h.bind (fun _ _ ⟨hr, ht⟩ => by cases hr; exact ht ▸ next) fun _ _ ⟨hr, _⟩ => nomatch hr

theorem gives_note {e : Event} (he : e.Sound text) : Gives text (note e) s () s :=
  ⟨⟨.ok (), s, [e]⟩, rfl, by simpa using he, rfl, rfl⟩

theorem gives_state : Gives text state s s s := ⟨⟨.ok s, s, []⟩, rfl, by simp, rfl, rfl⟩

theorem gives_update {f : State → State} : Gives text (update f) s () (f s) :=
  ⟨⟨.ok (), f s, []⟩, rfl, by simp, rfl, rfl⟩

theorem gives_context : Gives text context s ⟨text, byteLength text + 1⟩ s :=
  ⟨⟨_, s, []⟩, rfl, by simp, rfl, rfl⟩

theorem gives_minus {a b : Nat} (h : b ≤ a) : Gives text (minus a b) s (a - b) s := by
  rw [minus, if_pos h]
  exact runs_pure ⟨rfl, rfl⟩

theorem gives_offset : Gives text offset s s.mark.offset s :=
  Runs.andThen gives_state (runs_pure ⟨rfl, rfl⟩)

/-! Loops. -/

section
variable {body : σ → Scan (Turn σ ρ)} {post : Except ParseError ρ → State → Prop}
  (inv : σ → State → Prop)

/-- A loop ends where a measure gets smaller with every further round, and the rounds granted are
more than that. -/
theorem Runs.turns (measure : σ → State → Nat)
    (step : ∀ a s, inv a s → Runs text (body a) s fun r t =>
      match r with
      | .ok (.again b) => inv b t ∧ measure b t < measure a s
      | .ok (.done x) => post (.ok x) t
      | .error e => post (.error e) t)
    {n : Nat} {a : σ} {s : State} (h : inv a s) (hn : measure a s < n) :
    Runs text (turns body n a) s post := by
  induction n generalizing a s with
  | zero => exact absurd hn (Nat.not_lt_zero _)
  | succ n ih =>
    refine (step a s h).bind (fun turn t hturn => ?_) fun _ _ he => he
    cases turn with
    | again b => exact ih hturn.1 (by omega)
    | done x => exact runs_pure hturn

theorem Runs.iterate (measure : σ → State → Nat)
    (step : ∀ a s, inv a s → Runs text (body a) s fun r t =>
      match r with
      | .ok (.again b) => inv b t ∧ measure b t < measure a s
      | .ok (.done x) => post (.ok x) t
      | .error e => post (.error e) t)
    {a : σ} (h : inv a s) (hn : measure a s ≤ byteLength text) :
    Runs text (iterate body a) s post :=
  Runs.andThen gives_context (Runs.turns inv measure step h (Nat.lt_succ_of_le hn))

/-- A loop that reads on ends, since the text does. -/
theorem Runs.loop {name : Loop} (bound : ∀ a s, inv a s → s.mark.offset ≤ byteLength text)
    (step : ∀ a s, inv a s → Runs text (body a) s fun r t =>
      match r with
      | .ok (.again b) => inv b t ∧ s.mark.offset < t.mark.offset
      | .ok (.done x) => post (.ok x) t
      | .error e => post (.error e) t)
    {a : σ} (h : inv a s) : Runs text (loop name body a) s post := by
  refine Runs.iterate inv (fun _ t => byteLength text - t.mark.offset) (fun a s ha => ?_) h
    (Nat.sub_le _ _)
  refine Runs.andThen gives_offset ((step a s ha).bind (fun turn t hturn => ?_) fun _ _ he => he)
  cases turn with
  | again b =>
    obtain ⟨hb, hlt⟩ := hturn
    have := bound b t hb
    exact Runs.andThen gives_offset <| Runs.andThen (gives_note hlt)
      (runs_pure ⟨hb, by omega⟩)
  | done x => exact runs_pure hturn

end

theorem runs_reading {part : Part} {post : Except ParseError α → State → Prop}
    (h : Runs text m s fun r t =>
      post r t ∧ ∀ a, r = .ok a → s.mark.offset < t.mark.offset) :
    Runs text (reading part m) s post := by
  refine Runs.andThen gives_offset (h.bind (fun a t ⟨hpost, hlt⟩ => ?_) fun _ _ he => he.1)
  exact Runs.andThen gives_offset <| Runs.andThen (gives_note (hlt a rfl)) (runs_pure hpost)

end Scan
end Stencil
