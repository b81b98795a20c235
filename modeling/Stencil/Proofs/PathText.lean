import Stencil.Proofs.Written.Word

/-!
The texts of paths. A path is written as parents, then segments, with separators between them; a
mark in front of all makes the first segment the name of a private datum, and a point may stand for
the present value. Each such text is read as the steps that it stands for, before whatever ends a
word, and nothing else is read as a path.
-/
namespace Stencil

/-- A character between two parts of a path. -/
def IsSeparator (c : Char) : Prop := c = '.' ∨ c = '/'

/-- A name in a path: bare, or in brackets. -/
inductive NameText (name : List Char) : List Char → Prop
  | bare : name ≠ [] → (∀ c ∈ name, isNameChar c) → NameText name name
  | bracketed : ']' ∉ name → NameText name ('[' :: name ++ [']'])

/-- A segment. The bare word `this` is not the name of a field. -/
inductive SegmentText : PathStep → List Char → Prop
  | this : SegmentText .this ['t', 'h', 'i', 's']
  | field {name text} : NameText name text → text ≠ ['t', 'h', 'i', 's'] →
      SegmentText (.field (String.ofList name)) text

/-- The segments behind the first, each after a separator. -/
inductive TailText : List PathStep → List Char → Prop
  | nil : TailText [] []
  | cons {mark s text rest tail} : IsSeparator mark → SegmentText s text → TailText rest tail →
      TailText (s :: rest) (mark :: (text ++ tail))

/-- Parents, each before a separator. -/
inductive ParentsText : Nat → List Char → Prop
  | zero : ParentsText 0 []
  | succ {n mark text} : IsSeparator mark → ParentsText n text →
      ParentsText (n + 1) ('.' :: '.' :: mark :: text)

/-- What stands in a path before its segments, and whether segments follow: where none do, the last
parent has no separator. A point may stand for the present value unless the path is of a private
datum. -/
inductive FrontText (isPrivate : Bool) : List PathStep → Bool → List Char → Prop
  | parents {n text} : ParentsText n text →
      FrontText isPrivate (List.replicate n .parent) true text
  | onlyParents {n text} : ParentsText n text →
      FrontText isPrivate (List.replicate (n + 1) .parent) false (text ++ ['.', '.'])
  | point : isPrivate = false → FrontText isPrivate [.this] true ['.', '/']
  | onlyPoint : isPrivate = false → FrontText isPrivate [.this] false ['.']

/-- A path: segments behind what stands before them, in the path of a private datum a name first, or
what may stand before segments alone. -/
inductive PathText : List PathStep → List Char → Prop
  | segments {steps front s first rest tail} : FrontText false steps true front →
      SegmentText s first → TailText rest tail →
      PathText (steps ++ s :: rest) (front ++ (first ++ tail))
  | datum {steps front name first rest tail} : FrontText true steps true front →
      NameText name first → TailText rest tail →
      PathText (steps ++ .datum (String.ofList name) :: rest) ('@' :: (front ++ (first ++ tail)))
  | alone {steps front} : FrontText false steps false front → PathText steps front

/-! Segments. -/

namespace Cursor

/-- Segments are a first one, and more of them where a separator follows. -/
theorem segments_eq (c : Cursor) : c.segments = (do
    let (s, d) ← c.segment
    match d.separator? with
    | none => return ([s], d)
    | some e => do
      let (more, last) ← e.segments
      return (s :: more, last)) := by
  rw [segments]
  split
  next hs => rw [hs]; rfl
  next s d hs =>
    conv_rhs => rw [hs]
    change _ = match d.separator? with
      | none => _
      | some e => _
    split
    next hd => rw [hd]; rfl
    next e hd =>
      conv_rhs => rw [hd]
      change _ = e.segments >>= _
      cases e.segments <;> rfl

theorem segments_behind {c d : Cursor} {s : Segment} (hs : c.segment = .ok (s, d)) :
    c.segments = match d.separator? with
      | none => .ok ([s], d)
      | some e => e.segments >>= fun (more, last) => .ok (s :: more, last) := by
  rw [segments_eq, hs]
  rfl

theorem segments_last {c d : Cursor} {s : Segment} (hs : c.segment = .ok (s, d))
    (hd : d.separator? = none) : c.segments = .ok ([s], d) := by
  rw [segments_behind hs, hd]

theorem segments_more {c d e last : Cursor} {s : Segment} {rest : List Segment}
    (hs : c.segment = .ok (s, d)) (hd : d.separator? = some e)
    (hr : e.segments = .ok (rest, last)) : c.segments = .ok (s :: rest, last) := by
  rw [segments_behind hs, hd]
  dsimp only
  rw [hr]
  rfl

theorem separator?_wordEnd {t : List Char} (ht : WordEnd t) (m : Mark) :
    (Cursor.mk m t).separator? = none := by
  have h1 := ht.ne (c := '.') (by decide) (by decide) (by decide)
  have h2 := ht.ne (c := '/') (by decide) (by decide) (by decide)
  simp [Cursor.separator?, Cursor.follows_singleton, h1, h2]

end Cursor

theorem IsSeparator.stops {mark : Char} (h : IsSeparator mark) (t : List Char) :
    Stops isNameChar (mark :: t) := by
  rcases h with rfl | rfl <;> exact stops_cons.mpr (by decide)

theorem IsSeparator.separator? {mark : Char} (h : IsSeparator mark) (m : Mark) (t : List Char) :
    (Cursor.mk m (mark :: t)).separator? = some ⟨m.past [mark], t⟩ := by
  rcases h with rfl | rfl <;> simp [Cursor.separator?]

theorem Cursor.exists_separator {c d : Cursor} (h : c.separator? = some d) :
    ∃ mark, IsSeparator mark ∧ c.rest = mark :: d.rest := by
  rw [separator?] at h
  split at h
  next hmark =>
    cases h
    rcases Bool.or_eq_true_iff.mp hmark with hmark | hmark <;>
      obtain ⟨rest, hrest⟩ := List.isPrefixOf_iff_prefix.mp hmark
    · exact ⟨'.', .inl rfl, by simp [← hrest]⟩
    · exact ⟨'/', .inr rfl, by simp [← hrest]⟩
  next => cases h

/-- Neither a mark nor a point starts a name. -/
theorem NameText.head?_ne {name text : List Char} (h : NameText name text) {c : Char}
    (hc : c = '.' ∨ c = '@') (t : List Char) : (text ++ t).head? ≠ some c := by
  have hclass : isNameChar c = false ∧ c ≠ '[' := by rcases hc with rfl | rfl <;> decide
  cases h with
  | bare hne hn =>
    obtain ⟨d, name, rfl⟩ := List.exists_cons_of_ne_nil hne
    rintro ⟨⟩
    rw [hn c (.head _)] at hclass
    exact absurd hclass.1 (by decide)
  | bracketed =>
    rintro ⟨⟩
    exact hclass.2 rfl

theorem SegmentText.head?_ne {s : PathStep} {text : List Char} (h : SegmentText s text) {c : Char}
    (hc : c = '.' ∨ c = '@') (t : List Char) : (text ++ t).head? ≠ some c := by
  cases h with
  | this => rcases hc with rfl | rfl <;> simp
  | field hname => exact hname.head?_ne hc t

/-- A segment that is read from its text, before any text that cannot go on its name. -/
def ReadsSegment (s : Segment) (text : List Char) : Prop :=
  ∀ m t, Stops isNameChar t → (Cursor.mk m (text ++ t)).segment = .ok (s, ⟨m.past text, t⟩)

theorem readsSegment_bare {name : List Char} (hne : name ≠ []) (hn : ∀ c ∈ name, isNameChar c) :
    ReadsSegment ⟨String.ofList name, false⟩ name := by
  intro m t ht
  have hbracket : (Cursor.mk m (name ++ t)).follows ['['] = false := by
    obtain ⟨c, name, rfl⟩ := List.exists_cons_of_ne_nil hne
    have hc : c ≠ '[' := by
      rintro rfl
      exact absurd (hn '[' (by simp)) (by decide)
    rw [Cursor.follows_singleton]
    simpa using hc
  rw [Cursor.segment, hbracket]
  simp [ht.takeWhile hn, hne]

/-- A name in brackets ends with its bracket, whatever follows. -/
theorem Cursor.segment_bracketed {name : List Char} (hn : ']' ∉ name) (m : Mark) (t : List Char) :
    (Cursor.mk m ('[' :: name ++ [']'] ++ t)).segment =
      .ok (⟨String.ofList name, true⟩, ⟨m.past ('[' :: name ++ [']']), t⟩) := by
  have hname : (name ++ ']' :: t).takeWhile (· != ']') = name :=
    (stops_cons.mpr (by decide)).takeWhile fun c hc => by
      simpa using fun h : c = ']' => hn (h ▸ hc)
  have hlong : name.length < (name ++ ']' :: t).length := by simp
  have hrest : (Cursor.mk (m.past ['[']) (name ++ ']' :: t)).advance (name.length + 1) =
      ⟨m.past ('[' :: name ++ [']']), t⟩ := by
    simpa using advance_append (m.past ['[']) (name ++ [']']) t
  have htext : '[' :: name ++ [']'] ++ t = '[' :: (name ++ ']' :: t) := by simp
  rw [htext, segment, if_pos (follows_cons _ _ _), advance_cons]
  simp only [hname, if_pos hlong, hrest]

theorem step_bare {name : List Char} (h : name ≠ ['t', 'h', 'i', 's']) :
    Segment.step ⟨String.ofList name, false⟩ = .field (String.ofList name) := by
  have hname : String.ofList name ≠ "this" :=
    fun hthis => h (by simpa using congrArg String.toList hthis)
  simp [Segment.step, hname]

theorem NameText.exists_segment {name text : List Char} (h : NameText name text) :
    ∃ s : Segment, s.name = String.ofList name ∧
      (text ≠ ['t', 'h', 'i', 's'] → s.step = .field s.name) ∧ ReadsSegment s text := by
  cases h with
  | bare hne hn => exact ⟨_, rfl, step_bare, readsSegment_bare hne hn⟩
  | bracketed hn => exact ⟨_, rfl, fun _ => rfl, fun m t _ => Cursor.segment_bracketed hn m t⟩

theorem SegmentText.exists_segment {step : PathStep} {text : List Char}
    (h : SegmentText step text) : ∃ s : Segment, s.step = step ∧ ReadsSegment s text := by
  cases h with
  | this => exact ⟨_, rfl, readsSegment_bare (by simp) (List.all_eq_true.mp (by decide))⟩
  | field hname hthis =>
    obtain ⟨s, hs, hstep, hread⟩ := hname.exists_segment
    exact ⟨s, (hstep hthis).trans (by rw [hs]), hread⟩

/-- What was read as a segment is one. -/
theorem Cursor.exists_segmentText {c d : Cursor} {s : Segment} (h : c.segment = .ok (s, d)) :
    ∃ name text, c.rest = text ++ d.rest ∧ s.name = String.ofList name ∧ NameText name text ∧
      SegmentText s.step text := by
  obtain ⟨n, t⟩ := c
  by_cases hopen : (Cursor.mk n t).follows ['[']
  · obtain ⟨inner, rfl⟩ := List.isPrefixOf_iff_prefix.mp hopen
    by_cases hclose : ']' ∈ inner
    · obtain ⟨name, rest, rfl, hname⟩ := List.eq_append_cons_of_mem hclose
      have htext : ['['] ++ (name ++ ']' :: rest) = '[' :: name ++ [']'] ++ rest := by simp
      rw [htext, segment_bracketed hname n rest] at h
      cases h
      exact ⟨name, _, htext, rfl, .bracketed hname, .field (.bracketed hname) (by simp)⟩
    · have hall : inner.takeWhile (· != ']') = inner := by
        have hend : Stops (· != ']') [] := nofun
        have hrun : ∀ c ∈ inner, c != ']' := fun c hc => by
          simpa using fun hce : c = ']' => hclose (hce ▸ hc)
        have := hend.takeWhile hrun
        rwa [List.append_nil] at this
      rw [segment, if_pos hopen] at h
      simp [hall] at h
  · have hrun : ∀ c ∈ t.takeWhile isNameChar, isNameChar c :=
      List.all_eq_true.mp List.all_takeWhile
    by_cases hne : t.takeWhile isNameChar = []
    · rw [segment, if_neg hopen] at h
      simp [hne] at h
    · have hread := readsSegment_bare hne hrun n _ (stops_dropWhile isNameChar t)
      rw [List.takeWhile_append_dropWhile, h] at hread
      cases hread
      refine ⟨_, _, List.takeWhile_append_dropWhile.symm, rfl, .bare hne hrun, ?_⟩
      by_cases hthis : t.takeWhile isNameChar = ['t', 'h', 'i', 's']
      · rw [hthis]
        exact .this
      · rw [step_bare hthis]
        exact .field (.bare hne hrun) hthis

/-- Segments are read one after the other, by induction on those behind the first. -/
theorem TailText.exists_segments {rest : List PathStep} {tail : List Char}
    (h : TailText rest tail) {s : Segment} {first : List Char} (hfirst : ReadsSegment s first) :
    ∃ more : List Segment, more.map Segment.step = rest ∧ ∀ m t, WordEnd t →
      (Cursor.mk m (first ++ (tail ++ t))).segments =
        .ok (s :: more, ⟨m.past (first ++ tail), t⟩) := by
  induction h generalizing s first with
  | nil =>
    refine ⟨[], rfl, fun m t ht => ?_⟩
    rw [List.append_nil]
    exact Cursor.segments_last (hfirst m t ht.stops_isNameChar) (Cursor.separator?_wordEnd ht _)
  | @cons mark step text rest tail hmark hstep _ ih =>
    obtain ⟨next, rfl, hnext⟩ := hstep.exists_segment
    obtain ⟨more, rfl, hmore⟩ := ih hnext
    refine ⟨next :: more, rfl, fun m t ht => ?_⟩
    have htext : mark :: (text ++ tail) ++ t = mark :: (text ++ (tail ++ t)) := by simp
    have hpast : m.past (first ++ mark :: (text ++ tail)) =
        ((m.past first).past [mark]).past (text ++ tail) := by simp
    rw [htext, hpast]
    exact Cursor.segments_more (hfirst m _ (hmark.stops _)) (hmark.separator? _ _) (hmore _ t ht)

theorem Cursor.exists_tailText {c d : Cursor} {segments : List Segment}
    (h : c.segments = .ok (segments, d)) :
    ∃ s more name first tail, segments = s :: more ∧ c.rest = first ++ (tail ++ d.rest) ∧
      s.name = String.ofList name ∧ NameText name first ∧ SegmentText s.step first ∧
      TailText (more.map Segment.step) tail := by
  fun_induction Cursor.segments c generalizing segments with
  | case1 => cases h
  | case2 c s e hs hsep =>
    cases h
    obtain ⟨name, first, hrest, hname, htext, hstep⟩ := exists_segmentText hs
    exact ⟨s, [], name, first, [], rfl, hrest, hname, htext, hstep, .nil⟩
  | case3 => cases h
  | case4 c s e hs f hsep _ rest last hl ih =>
    cases h
    obtain ⟨name, first, hrest, hname, htext, hstep⟩ := exists_segmentText hs
    obtain ⟨next, more, -, text, tail, rfl, hf, -, -, hnext, htail⟩ := ih hl
    obtain ⟨mark, hmark, he⟩ := exists_separator hsep
    refine ⟨s, _, name, first, mark :: (text ++ tail), rfl, ?_, hname, htext, hstep,
      .cons hmark hnext htail⟩
    rw [hrest, he, hf]
    simp

/-! What stands before the segments. -/

theorem ParentsText.climb {n : Nat} {text : List Char} (h : ParentsText n text) (t : List Char) :
    climb (text ++ t) = ⟨n + (climb t).count, (climb t).continues, (climb t).rest⟩ := by
  induction h with
  | zero => rw [List.nil_append, Nat.zero_add]
  | succ hmark _ ih =>
    rcases hmark with rfl | rfl <;>
      simp [Stencil.climb, ih, Climb.succ, Nat.add_right_comm]

theorem exists_parentsText (s : List Char) :
    ∃ n text t, ParentsText n text ∧
      ((s = text ++ t ∧ climb s = ⟨n, true, t⟩) ∨
        s = text ++ '.' :: '.' :: t ∧ climb s = ⟨n + 1, false, t⟩) := by
  fun_induction climb s with
  | case1 rest ih =>
    obtain ⟨n, text, t, htext, ⟨rfl, hclimb⟩ | ⟨rfl, hclimb⟩⟩ := ih <;> rw [hclimb]
    · exact ⟨n + 1, _, t, .succ (.inl rfl) htext, .inl ⟨rfl, rfl⟩⟩
    · exact ⟨n + 1, _, t, .succ (.inl rfl) htext, .inr ⟨rfl, rfl⟩⟩
  | case2 rest ih =>
    obtain ⟨n, text, t, htext, ⟨rfl, hclimb⟩ | ⟨rfl, hclimb⟩⟩ := ih <;> rw [hclimb]
    · exact ⟨n + 1, _, t, .succ (.inr rfl) htext, .inl ⟨rfl, rfl⟩⟩
    · exact ⟨n + 1, _, t, .succ (.inr rfl) htext, .inr ⟨rfl, rfl⟩⟩
  | case3 rest => exact ⟨0, [], rest, .zero, .inr ⟨rfl, rfl⟩⟩
  | case4 s => exact ⟨0, [], s, .zero, .inl ⟨rfl, rfl⟩⟩

/-- What may follow what stands before the segments: a segment, or whatever ends a word. -/
def Follows (continues : Bool) (t : List Char) : Prop :=
  if continues then t.head? ≠ some '.' else WordEnd t

theorem climb_stop {t : List Char} (h : t.head? ≠ some '.') : climb t = ⟨0, true, t⟩ := by
  unfold climb
  split <;> simp_all

theorem climb_parent {t : List Char} (ht : WordEnd t) :
    climb ('.' :: '.' :: t) = ⟨1, false, t⟩ := by
  have hdot := ht.ne (c := '.') (by decide) (by decide) (by decide)
  have hslash := ht.ne (c := '/') (by decide) (by decide) (by decide)
  unfold climb
  split <;> simp_all

theorem climb_count_ne (t : List Char) : (climb ('.' :: '.' :: t)).count ≠ 0 := by
  unfold climb
  split <;> simp_all [Climb.succ]

theorem climb_point {t : List Char} (h : t.head? ≠ some '.') :
    climb ('.' :: t) = ⟨0, true, '.' :: t⟩ := by
  unfold climb
  split <;> simp_all

namespace Cursor

/-- Where no point stands for the present value, the front of a path is its parents. -/
theorem pathHead_climb {m : Mark} {text t : List Char} {isPrivate continues : Bool} {n : Nat}
    (hclimb : climb (text ++ t) = ⟨n, continues, t⟩)
    (hpoint : continues → isPrivate = false → n = 0 → t.head? ≠ some '.') :
    (Cursor.mk m (text ++ t)).pathHead isPrivate =
      ⟨List.replicate n .parent, continues, ⟨m.past text, t⟩⟩ := by
  simp only [pathHead, hclimb, reach_append]
  rw [if_neg]
  simp only [Bool.and_eq_true, Bool.not_eq_true', beq_iff_eq, not_and, follows_singleton]
  rintro ⟨⟨hc, hp⟩, hn⟩
  exact hpoint hc hp hn

/-- A point that starts no parent stands for the present value, and a slash continues it. -/
theorem pathHead_point {t : List Char} (h : t.head? ≠ some '.') (m : Mark) :
    (Cursor.mk m ('.' :: t)).pathHead false =
      if (Cursor.mk (m.past ['.']) t).follows ['/'] then
        ⟨[.this], true, (Cursor.mk (m.past ['.']) t).advance 1⟩
      else ⟨[.this], false, ⟨m.past ['.'], t⟩⟩ := by
  have hreach := reach_append m [] ('.' :: t)
  rw [List.nil_append] at hreach
  simp only [pathHead, climb_point h, hreach, Mark.past_nil, follows_cons, advance_cons]
  rfl

end Cursor

/-- What stands before the segments starts with no mark. -/
theorem FrontText.head?_ne {isPrivate continues : Bool} {steps : List PathStep} {text : List Char}
    (h : FrontText isPrivate steps continues text) {t : List Char} (ht : t.head? ≠ some '@') :
    (text ++ t).head? ≠ some '@' := by
  cases h with
  | parents hparents => cases hparents <;> simp [ht]
  | onlyParents hparents => cases hparents <;> simp
  | point | onlyPoint => simp

theorem FrontText.pathHead {isPrivate continues : Bool} {steps : List PathStep} {text : List Char}
    (h : FrontText isPrivate steps continues text) {t : List Char} (ht : Follows continues t)
    (m : Mark) :
    (Cursor.mk m (text ++ t)).pathHead isPrivate = ⟨steps, continues, ⟨m.past text, t⟩⟩ := by
  cases h with
  | parents hparents =>
    refine Cursor.pathHead_climb ?_ fun _ _ _ => ht
    rw [hparents.climb, climb_stop ht]
    rfl
  | @onlyParents n text hparents =>
    refine Cursor.pathHead_climb ?_ nofun
    have htext : text ++ ['.', '.'] ++ t = text ++ '.' :: '.' :: t := by simp
    rw [htext, hparents.climb, climb_parent ht]
  | point hpublic =>
    subst hpublic
    exact (Cursor.pathHead_point (by simp) m).trans (by simp)
  | onlyPoint hpublic =>
    subst hpublic
    refine (Cursor.pathHead_point (ht.ne (by decide) (by decide) (by decide)) m).trans ?_
    have hslash := ht.ne (c := '/') (by decide) (by decide) (by decide)
    rw [Cursor.follows_singleton, if_neg (by simpa using hslash)]

/-- What was read before the segments of a path is the front of one. -/
theorem Cursor.exists_frontText (c : Cursor) (isPrivate : Bool) :
    ∃ text, c.rest = text ++ (c.pathHead isPrivate).after.rest ∧
      FrontText isPrivate (c.pathHead isPrivate).steps (c.pathHead isPrivate).continues text := by
  obtain ⟨m, s⟩ := c
  by_cases hlone : isPrivate = false ∧ ∃ t, s = '.' :: t ∧ t.head? ≠ some '.'
  · obtain ⟨rfl, t, rfl, ht⟩ := hlone
    rw [pathHead_point ht, follows_singleton]
    split
    next hslash =>
      obtain ⟨rest, rfl⟩ := List.head?_eq_some_iff.mp (beq_iff_eq.mp hslash)
      exact ⟨['.', '/'], rfl, .point rfl⟩
    next => exact ⟨['.'], rfl, .onlyPoint rfl⟩
  · obtain ⟨n, text, t, hparents, ⟨rfl, hclimb⟩ | ⟨rfl, hclimb⟩⟩ := exists_parentsText s
    · rw [pathHead_climb hclimb]
      · exact ⟨text, rfl, .parents hparents⟩
      · rintro - hpublic rfl hdot
        cases hparents
        obtain ⟨rest, rfl⟩ := List.head?_eq_some_iff.mp hdot
        have hrest : rest.head? = some '.' := by
          by_contra hne
          exact hlone ⟨hpublic, rest, rfl, hne⟩
        obtain ⟨rest, rfl⟩ := List.head?_eq_some_iff.mp hrest
        exact absurd (congrArg Climb.count hclimb) (climb_count_ne rest)
    · have htext : text ++ '.' :: '.' :: t = text ++ ['.', '.'] ++ t := by simp
      rw [htext] at hclimb ⊢
      rw [pathHead_climb hclimb nofun]
      exact ⟨_, rfl, .onlyParents hparents⟩

/-! Paths. -/

/-- The mark of a private datum, where there is one, and the place behind it. -/
theorem Cursor.skipMark_append (isPrivate : Bool) {body : List Char}
    (h : isPrivate = false → body.head? ≠ some '@') (m : Mark) :
    (Cursor.mk m ((if isPrivate then ['@'] else []) ++ body)).follows ['@'] = isPrivate ∧
      (Cursor.mk m ((if isPrivate then ['@'] else []) ++ body)).skipMark =
        ⟨m.past (if isPrivate then ['@'] else []), body⟩ := by
  have hfollows : (Cursor.mk m ((if isPrivate then ['@'] else []) ++ body)).follows ['@'] =
      isPrivate := by
    rw [follows_singleton]
    cases isPrivate with
    | true => rfl
    | false => simpa using h rfl
  refine ⟨hfollows, ?_⟩
  rw [skipMark, hfollows]
  cases isPrivate <;> simp

/-- A path with segments, behind the mark of a private datum where there is one. -/
theorem FrontText.path {isPrivate : Bool} {steps : List PathStep} {front : List Char}
    (hfront : FrontText isPrivate steps true front) {s : Segment} {first : List Char}
    (hs : ReadsSegment s first) (hhead : ∀ c, c = '.' ∨ c = '@' → ∀ t, (first ++ t).head? ≠ some c)
    {rest : List PathStep} {tail : List Char} (htail : TailText rest tail) {t : List Char}
    (ht : WordEnd t) (m : Mark) :
    let text := (if isPrivate then ['@'] else []) ++ (front ++ (first ++ tail))
    (Cursor.mk m (text ++ t)).path =
      .ok (⟨steps ++ (if isPrivate then .datum s.name else s.step) :: rest, String.ofList text⟩,
        ⟨m.past text, t⟩) := by
  intro text
  obtain ⟨more, rfl, hmore⟩ := htail.exists_segments hs
  obtain ⟨mark, hmark⟩ : ∃ mark : List Char, mark = if isPrivate then ['@'] else [] := ⟨_, rfl⟩
  have htext : text ++ t = mark ++ (front ++ (first ++ (tail ++ t))) := by simp [text, hmark]
  obtain ⟨hfollows, hskip⟩ := Cursor.skipMark_append isPrivate
    (fun _ => hfront.head?_ne (hhead '@' (.inr rfl) (tail ++ t))) m
  rw [← hmark, ← htext] at hfollows hskip
  have hread := hfront.pathHead (t := first ++ (tail ++ t)) (hhead '.' (.inl rfl) _)
    (m.past mark)
  have hpast : ((m.past mark).past front).past (first ++ tail) = m.past text := by
    simp [text, hmark]
  simp only [Cursor.path, hfollows, hskip, hread, hmore _ t ht, if_true, hpast,
    Cursor.textTo_append, segmentSteps]

/-- The text of a path is read as the steps that it stands for, before whatever ends a word. -/
theorem PathText.path {steps : List PathStep} {text : List Char} (h : PathText steps text)
    {t : List Char} (ht : WordEnd t) (m : Mark) :
    (Cursor.mk m (text ++ t)).path = .ok (⟨steps, String.ofList text⟩, ⟨m.past text, t⟩) := by
  cases h with
  | segments hfront hs htail =>
    obtain ⟨s, rfl, hread⟩ := hs.exists_segment
    exact hfront.path hread (fun _ hc => hs.head?_ne hc) htail ht m
  | datum hfront hname htail =>
    obtain ⟨s, hs, -, hread⟩ := hname.exists_segment
    rw [← hs]
    exact hfront.path hread (fun _ hc => hname.head?_ne hc) htail ht m
  | alone hfront =>
    have hmark : t.head? ≠ some '@' := ht.ne (by decide) (by decide) (by decide)
    obtain ⟨hfollows, hskip⟩ := Cursor.skipMark_append false (fun _ => hfront.head?_ne hmark) m
    have hread := hfront.pathHead ht m
    simp only [Bool.false_eq_true, if_false, List.nil_append, Mark.past_nil] at hfollows hskip
    simp only [Cursor.path, hfollows, hskip, Bool.false_eq_true, if_false, hread,
      Cursor.textTo_append]

theorem Cursor.textTo_eq {c d : Cursor} {text : List Char} (h : c.rest = text ++ d.rest) :
    c.textTo d = text := by
  rw [textTo, h, List.length_append, Nat.add_sub_cancel, List.take_left]

/-- What was read as a path is one, and is its source. -/
theorem Cursor.exists_pathText {c d : Cursor} {p : Path} (h : c.path = .ok (p, d)) :
    ∃ text, c.rest = text ++ d.rest ∧ p.source = String.ofList text ∧ PathText p.steps text := by
  obtain ⟨isPrivate, hprivate⟩ : ∃ isPrivate, c.follows ['@'] = isPrivate := ⟨_, rfl⟩
  have hmark : c.rest = (if isPrivate then ['@'] else []) ++ c.skipMark.rest := by
    rw [skipMark, hprivate]
    cases isPrivate with
    | false => rfl
    | true =>
      obtain ⟨rest, hrest⟩ := List.isPrefixOf_iff_prefix.mp hprivate
      simp [← hrest]
  obtain ⟨front, hfront, hfrontText⟩ := c.skipMark.exists_frontText isPrivate
  rw [hfront] at hmark
  simp only [Cursor.path, hprivate] at h
  split at h
  next hmore =>
    rw [hmore] at hfrontText
    split at h
    next => cases h
    next segments e hs =>
      cases h
      obtain ⟨s, more, name, first, tail, rfl, hrest, hname, hfirst, hstep, htail⟩ :=
        exists_tailText hs
      have htext : c.rest = ((if isPrivate then ['@'] else []) ++ (front ++ (first ++ tail))) ++
          d.rest := by
        rw [hmark, hrest]
        simp
      rw [textTo_eq htext]
      refine ⟨_, htext, rfl, ?_⟩
      cases isPrivate with
      | false =>
        change PathText _ (front ++ (first ++ tail))
        exact .segments hfrontText hstep htail
      | true =>
        change PathText _ ('@' :: (front ++ (first ++ tail)))
        rw [segmentSteps, if_pos rfl, hname]
        exact .datum hfrontText hfirst htail
  next hmore =>
    rw [Bool.not_eq_true] at hmore
    rw [hmore] at hfrontText
    split at h
    next => cases h
    next hpublic =>
      cases h
      rw [Bool.not_eq_true] at hpublic
      subst hpublic
      rw [textTo_eq hmark]
      exact ⟨front, hmark, rfl, .alone hfrontText⟩

end Stencil
