import Stencil.Source.Block

/-!
Places that reading reaches. A reader that starts at a cursor ends at a place of the text that
follows it, whose mark counts exactly what was read; so does a fault that it raises.
-/
namespace Stencil

namespace Cursor

/-- `d` is a place of the text that follows `c`, with its mark brought up to date. -/
def LeadsTo (c d : Cursor) : Prop := ∃ text, c.rest = text ++ d.rest ∧ d.mark = c.mark.past text

/-- A fault at a place of the text that follows `c`. -/
def Finds (c : Cursor) (f : Fault) : Prop :=
  ∃ d, c.LeadsTo d ∧ (f.place = .here d.mark ∨ f.place = .earlier d.mark.offset)

/-- A reading that ends, well or with a fault, at a place of the text that follows `c`. -/
structure Tracks {α : Type} (c : Cursor) (r : Except Fault (α × Cursor)) : Prop where
  leadsTo : ∀ a d, r = .ok (a, d) → c.LeadsTo d
  finds : ∀ f, r = .error f → c.Finds f

section
variable {c d e : Cursor} {f : Fault}

theorem LeadsTo.refl (c : Cursor) : c.LeadsTo c := ⟨[], rfl, rfl⟩

theorem LeadsTo.trans (h : c.LeadsTo d) (h' : d.LeadsTo e) : c.LeadsTo e := by
  obtain ⟨s, hs, hmark⟩ := h
  obtain ⟨t, ht, hmark'⟩ := h'
  exact ⟨s ++ t, by simp [hs, ht], by simp [hmark, hmark']⟩

theorem LeadsTo.suffix (h : c.LeadsTo d) : d.rest <:+ c.rest := by
  obtain ⟨s, hs, -⟩ := h
  exact ⟨s, hs.symm⟩

theorem leadsTo_advance (c : Cursor) (n : Nat) : c.LeadsTo (c.advance n) :=
  ⟨c.rest.take n, ( List.take_append_drop n c.rest).symm, rfl⟩

theorem leadsTo_reach (c : Cursor) (rest : List Char) : c.LeadsTo (c.reach rest) :=
  c.leadsTo_advance _

theorem leadsTo_skipSpace (c : Cursor) : c.LeadsTo c.skipSpace := c.leadsTo_advance _

theorem Finds.of_leadsTo (h : c.LeadsTo d) (hf : d.Finds f) : c.Finds f := by
  obtain ⟨e, he, hplace⟩ := hf
  exact ⟨e, h.trans he, hplace⟩

theorem finds_fault (c : Cursor) (kind : ParseFailure) : c.Finds (c.fault kind) :=
  ⟨c, .refl c, .inl rfl⟩

theorem finds_earlier (c : Cursor) (kind : ParseFailure) :
    c.Finds ⟨.earlier c.mark.offset, kind⟩ :=
  ⟨c, .refl c, .inr rfl⟩

end

/-! How readings are put together. -/

section
variable {α β : Type} {c d : Cursor} {r : Except Fault (α × Cursor)}

theorem tracks_ok {a : α} (h : c.LeadsTo d) : c.Tracks (.ok (a, d)) where
  leadsTo b e he := by cases he; exact h
  finds f hf := by cases hf

theorem tracks_error {f : Fault} (h : c.Finds f) :
    c.Tracks (.error f : Except Fault (α × Cursor)) where
  leadsTo a d hd := by cases hd
  finds g hg := by cases hg; exact h

theorem Tracks.of_leadsTo (h : c.LeadsTo d) (hr : d.Tracks r) : c.Tracks r where
  leadsTo a e he := h.trans (hr.leadsTo a e he)
  finds f hf := (hr.finds f hf).of_leadsTo h

theorem Tracks.bind {f : α × Cursor → Except Fault (β × Cursor)} (h : c.Tracks r)
    (next : ∀ (a : α) (d : Cursor), c.LeadsTo d → c.Tracks (f (a, d))) : c.Tracks (r >>= f) := by
  cases r with
  | error g => exact tracks_error (h.finds g rfl)
  | ok p => exact next p.1 p.2 (h.leadsTo p.1 p.2 rfl)

end

/-! The readers of words. -/

theorem leadsTo_of_expect {c d : Cursor} {text : List Char} (h : c.expect text = .ok d) :
    c.LeadsTo d := by
  simp only [expect] at h
  split at h
  · cases h; exact c.leadsTo_advance _
  · split at h <;> cases h

theorem finds_of_expect {c : Cursor} {text : List Char} {f : Fault}
    (h : c.expect text = .error f) : c.Finds f := by
  simp only [expect] at h
  split at h
  · cases h
  · split at h <;> (cases h; exact c.finds_fault _)

theorem tracks_segment (c : Cursor) : c.Tracks c.segment := by
  simp only [segment]
  split
  · split
    · exact tracks_ok ((c.leadsTo_advance 1).trans (leadsTo_advance _ _))
    · exact tracks_error
        ((finds_fault _ _).of_leadsTo ((c.leadsTo_advance 1).trans (leadsTo_advance _ _)))
  · split
    · exact tracks_error (c.finds_fault _)
    · exact tracks_ok (c.leadsTo_advance _)

theorem leadsTo_of_separator? {c d : Cursor} (h : c.separator? = some d) : c.LeadsTo d := by
  simp only [separator?] at h
  split at h
  · cases h; exact c.leadsTo_advance 1
  · cases h

theorem tracks_segments (c : Cursor) : c.Tracks c.segments := by
  fun_induction segments c with
  | case1 c f hs => exact tracks_error (c.tracks_segment.finds f hs)
  | case2 c s d hs hd => exact tracks_ok (c.tracks_segment.leadsTo s d hs)
  | case3 c s d hs e hd _ f hf ih =>
    have hde := (c.tracks_segment.leadsTo s d hs).trans (leadsTo_of_separator? hd)
    exact tracks_error ((ih.finds f hf).of_leadsTo hde)
  | case4 c s d hs e hd _ rest last hl ih =>
    have hde := (c.tracks_segment.leadsTo s d hs).trans (leadsTo_of_separator? hd)
    exact tracks_ok (hde.trans (ih.leadsTo rest last hl))

theorem leadsTo_pathHead (c : Cursor) (isPrivate : Bool) :
    c.LeadsTo (c.pathHead isPrivate).after := by
  have hreach := c.leadsTo_reach (climb c.rest).rest
  simp only [pathHead]
  split
  · split
    · exact (hreach.trans (leadsTo_advance _ 1)).trans (leadsTo_advance _ 1)
    · exact hreach.trans (leadsTo_advance _ 1)
  · exact hreach

theorem leadsTo_skipMark (c : Cursor) : c.LeadsTo c.skipMark := by
  simp only [skipMark]
  split
  · exact c.leadsTo_advance 1
  · exact .refl c

theorem tracks_path (c : Cursor) : c.Tracks c.path := by
  have hhead := c.leadsTo_skipMark.trans (leadsTo_pathHead _ (c.follows ['@']))
  simp only [path]
  split
  · split
    next f hf => exact tracks_error (((tracks_segments _).finds f hf).of_leadsTo hhead)
    next s d hd => exact tracks_ok (hhead.trans ((tracks_segments _).leadsTo s d hd))
  · split
    · exact tracks_error ((finds_fault _ _).of_leadsTo hhead)
    · exact tracks_ok hhead

theorem tracks_quoted (c : Cursor) (quote : Char) : c.Tracks (c.quoted quote) := by
  simp only [quoted]
  split
  · exact tracks_ok (c.leadsTo_reach _)
  · exact tracks_error ((finds_fault _ _).of_leadsTo (c.leadsTo_advance _))

theorem tracks_expression (c : Cursor) : c.Tracks c.expression := by
  simp only [expression]
  split
  · exact tracks_error (c.finds_fault _)
  · split
    · split
      next f hf => exact tracks_error ((c.tracks_quoted _).finds f hf)
      next s d hd => exact tracks_ok ((c.tracks_quoted _).leadsTo s d hd)
    · split
      · exact tracks_ok (c.leadsTo_reach _)
      · split
        next f hf => exact tracks_error (c.tracks_path.finds f hf)
        next p d hd => exact tracks_ok (c.tracks_path.leadsTo p d hd)

/-! The readers of tags. -/

theorem leadsTo_skipName (c : Cursor) (name : List Char) : c.LeadsTo (c.skipName name) :=
  (((c.leadsTo_advance _).trans (leadsTo_skipSpace _)).trans (leadsTo_advance _ 1)).trans
    (leadsTo_skipSpace _)

theorem tracks_arguments (c : Cursor) (rule : ParamRule) (found : Arguments) :
    c.Tracks (c.arguments rule found) := by
  have hname (c : Cursor) (name? : Option (List Char)) :
      c.LeadsTo (name?.elim c.skipSpace c.skipSpace.skipName) := by
    cases name? with
    | none => exact c.leadsTo_skipSpace
    | some name => exact c.leadsTo_skipSpace.trans (leadsTo_skipName _ name)
  fun_induction arguments c rule found with
  | case1 c => exact tracks_ok c.leadsTo_skipSpace
  | case2 c => exact tracks_error ((finds_fault _ _).of_leadsTo c.leadsTo_skipSpace)
  | case3 c _ _ _ name? _ f hf =>
    exact tracks_error (((tracks_expression _).finds f hf).of_leadsTo (hname c name?))
  | case4 c _ _ _ name? _ e after he _ ih =>
    exact ih.of_leadsTo ((hname c name?).trans ((tracks_expression _).leadsTo e after he))

theorem tracks_call (c : Cursor) : c.Tracks c.call := by
  refine .of_leadsTo c.leadsTo_skipSpace ((tracks_expression _).bind fun head d hd => ?_)
  refine .of_leadsTo hd ((tracks_arguments d _ _).bind fun arguments e he => ?_)
  exact tracks_ok he

theorem tracks_simpleTag (c : Cursor) (escaped : Bool) : c.Tracks (c.simpleTag escaped) :=
  c.tracks_call.bind fun _ _ hd => tracks_ok hd

theorem tracks_blockHead (c : Cursor) : c.Tracks c.blockHead := by
  refine .of_leadsTo c.leadsTo_skipSpace ((tracks_call _).bind fun ⟨head, arguments⟩ e he => ?_)
  cases head with
  | path path => exact tracks_ok he
  -- the fault is placed where the head starts, behind which the call was read
  | string text => exact tracks_error (finds_earlier _ _)
  | numeral n => exact tracks_error (finds_earlier _ _)

theorem tracks_partialName (c : Cursor) : c.Tracks c.partialName := by
  simp only [partialName]
  split
  · exact c.tracks_quoted _
  · split
    · exact c.tracks_quoted _
    · split
      · exact tracks_error (c.finds_fault _)
      · exact tracks_ok (c.leadsTo_advance _)

theorem tracks_insertion (c : Cursor) : c.Tracks c.insertion := by
  refine .of_leadsTo c.leadsTo_skipSpace ((tracks_partialName _).bind fun name d hd => ?_)
  refine .of_leadsTo hd ((tracks_arguments d _ _).bind fun arguments e he => ?_)
  exact tracks_ok he

theorem tracks_elseTag (c : Cursor) : c.Tracks c.elseTag := by
  simp only [elseTag]
  split
  · exact tracks_ok (.refl c)
  · exact c.tracks_blockHead.bind fun _ _ hd => tracks_ok hd

theorem tracks_signedBody (c : Cursor) (sign : Option Char) : c.Tracks (c.signedBody sign) := by
  simp only [signedBody]
  split
  · refine (c.tracks_simpleTag false).bind fun body d hd => ?_
    have hspace := hd.trans d.leadsTo_skipSpace
    cases he : d.skipSpace.expect ['}'] with
    | error f => exact tracks_error ((finds_of_expect he).of_leadsTo hspace)
    | ok e => exact tracks_ok (hspace.trans (leadsTo_of_expect he))
  · exact c.tracks_simpleTag false
  · exact c.tracks_blockHead.bind fun _ _ hd => tracks_ok hd
  · refine .of_leadsTo c.leadsTo_skipSpace ?_
    split
    · exact tracks_ok (.refl _)
    · exact (tracks_blockHead _).bind fun _ _ hd => tracks_ok hd
  · exact .of_leadsTo c.leadsTo_skipSpace ((tracks_path _).bind fun _ _ hd => tracks_ok hd)
  · exact c.tracks_insertion
  · refine .of_leadsTo c.leadsTo_skipSpace ?_
    split
    · exact .of_leadsTo ((leadsTo_advance _ 4).trans (leadsTo_skipSpace _)) (tracks_elseTag _)
    · exact tracks_simpleTag _ _

theorem tracks_commentTag (c : Cursor) : c.Tracks c.commentTag := by
  simp only [commentTag]
  split
  · exact tracks_ok (c.leadsTo_reach _)
  · exact tracks_error ((finds_fault _ _).of_leadsTo (c.leadsTo_advance _))

theorem tracks_closingBraces (c : Cursor) : c.Tracks c.closingBraces := by
  have hd := c.leadsTo_skipSpace.trans
    (leadsTo_advance c.skipSpace (c.skipSpace.follows ['~']).toNat)
  simp only [closingBraces]
  cases he : (c.skipSpace.advance (c.skipSpace.follows ['~']).toNat).expect ['}', '}'] with
  | error f => exact tracks_error ((finds_of_expect he).of_leadsTo hd)
  | ok e => exact tracks_ok (hd.trans (leadsTo_of_expect he))

theorem tracks_tagBody (c : Cursor) : c.Tracks c.tagBody := by
  simp only [tagBody]
  split
  · exact .of_leadsTo (c.leadsTo_advance 1) (tracks_commentTag _)
  · refine .of_leadsTo (c.leadsTo_advance _) ((tracks_signedBody _ _).bind fun body d hd => ?_)
    refine .of_leadsTo hd ((tracks_closingBraces d).bind fun trim e he => ?_)
    exact tracks_ok he

theorem tracks_tag (c : Cursor) : c.Tracks c.tag := by
  have hinner := (c.leadsTo_advance 2).trans
    (leadsTo_advance (c.advance 2) ((c.advance 2).follows ['~']).toNat)
  exact .of_leadsTo hinner ((tracks_tagBody _).bind fun _ _ hd => tracks_ok hd)

/-- A tag keeps the places where it starts and ends. -/
theorem start_stop_of_tag {c d : Cursor} {t : Tag} (h : c.tag = .ok (t, d)) :
    t.start = c.mark.offset ∧ t.stop = d.mark := by
  obtain ⟨inner, hinner⟩ : ∃ inner,
      inner = (c.advance 2).advance ((c.advance 2).follows ['~']).toNat := ⟨_, rfl⟩
  simp only [tag, ← hinner] at h
  cases hbody : inner.tagBody with
  | error f => simp [hbody, bind, Except.bind] at h
  | ok p =>
    simp only [hbody, bind, Except.bind, pure, Except.pure, Except.ok.injEq, Prod.mk.injEq] at h
    obtain ⟨rfl, rfl⟩ := h
    exact ⟨rfl, rfl⟩

/-! Pieces. -/

/-- A tag of the text that follows `c`, where it says it is. -/
structure Holds (c : Cursor) (t : Tag) : Prop where
  start : ∃ d, c.LeadsTo d ∧ d.mark.offset = t.start
  stop : ∃ d, c.LeadsTo d ∧ d.mark = t.stop

theorem Holds.of_leadsTo {c d : Cursor} {t : Tag} (h : c.LeadsTo d) (ht : d.Holds t) :
    c.Holds t := by
  obtain ⟨⟨e, he, hstart⟩, ⟨g, hg, hstop⟩⟩ := ht
  exact ⟨⟨e, h.trans he, hstart⟩, ⟨g, h.trans hg, hstop⟩⟩

theorem holds_of_mem_pieces {c : Cursor} {t : Tag} (h : .tag t ∈ c.pieces.1) : c.Holds t := by
  fun_induction pieces c with
  | case1 => simp at h
  | case2 => simp at h
  | case3 c _ _ u d hu _ _ ih =>
    have hd := c.tracks_tag.leadsTo u d hu
    rcases List.mem_cons.mp h with h | h
    · cases h
      obtain ⟨hstart, hstop⟩ := start_stop_of_tag hu
      exact ⟨⟨c, .refl c, hstart.symm⟩, ⟨d, hd, hstop.symm⟩⟩
    · exact (ih h).of_leadsTo hd
  | case4 c _ _ _ _ _ ih =>
    rcases List.mem_cons.mp h with h | h
    · cases h
    · exact (ih h).of_leadsTo (c.leadsTo_reach _)

/-- The pieces end at a place of the text, or with a fault at one. -/
theorem ending_pieces (c : Cursor) :
    (∀ m, c.pieces.2 = .ok m → ∃ d, c.LeadsTo d ∧ d.mark = m) ∧
      ∀ f, c.pieces.2 = .error f → c.Finds f := by
  fun_induction pieces c with
  | case1 c => exact ⟨fun m hm => by cases hm; exact ⟨c, .refl c, rfl⟩, nofun⟩
  | case2 c _ _ g hg => exact ⟨nofun, fun f hf => by cases hf; exact c.tracks_tag.finds g hg⟩
  | case3 c _ _ u d hu _ _ ih =>
    have hd := c.tracks_tag.leadsTo u d hu
    refine ⟨fun m hm => ?_, fun f hf => (ih.2 f hf).of_leadsTo hd⟩
    obtain ⟨e, he, hmark⟩ := ih.1 m hm
    exact ⟨e, hd.trans he, hmark⟩
  | case4 c _ _ raw _ _ ih =>
    have hd := c.leadsTo_reach raw.2
    refine ⟨fun m hm => ?_, fun f hf => (ih.2 f hf).of_leadsTo hd⟩
    obtain ⟨e, he, hmark⟩ := ih.1 m hm
    exact ⟨e, hd.trans he, hmark⟩

end Cursor

/-! Programs. -/

theorem mem_of_mem_trimPieces {t : Tag} {trim : Bool} {pieces : List Piece}
    (h : .tag t ∈ trimPieces trim pieces) : .tag t ∈ pieces := by
  fun_induction trimPieces trim pieces with
  | case1 => exact h
  | case2 _ _ _ _ _ _ ih => exact .tail _ (ih h)
  | case3 _ _ _ _ _ _ ih =>
    rcases List.mem_cons.mp h with h | h
    · cases h
    · exact .tail _ (ih h)
  | case4 _ u _ ih =>
    rcases List.mem_cons.mp h with h | h
    · cases h; exact .head _
    · exact .tail _ (ih h)

/-- A fault in how pieces nest is where a tag ends, or where one starts. -/
theorem Nesting.place_of_step {n : Nesting} {piece : Piece} {f : Fault}
    (h : n.step piece = .error f) :
    ∃ t, piece = .tag t ∧ (f.place = .here t.stop ∨ f.place = .earlier t.start) := by
  have hopen {n : Nesting} {block : OpenBlock} {stop : Mark} {f : Fault}
      (h : n.openBlock block stop = .error f) : f.place = .here stop := by
    simp only [Nesting.openBlock] at h
    split at h
    · cases h; rfl
    · cases h
  cases piece with
  | raw text => cases h
  | tag t =>
    refine ⟨t, rfl, ?_⟩
    simp only [Nesting.step] at h
    split at h
    · cases h
    · exact .inl (hopen h)
    · simp only [Nesting.beginElse] at h
      split at h
      · cases h; exact .inr rfl
      · split at h
        · cases h; exact .inr rfl
        · split at h
          · cases h
          · exact .inl (hopen h)
    · simp only [Nesting.closeBlock] at h
      split at h
      · cases h; exact .inr rfl
      · split at h
        · cases h
        · cases h; exact .inr rfl

theorem Nesting.exists_step_of_foldlM {n : Nesting} {pieces : List Piece} {f : Fault}
    (h : pieces.foldlM Nesting.step n = .error f) :
    ∃ (m : Nesting) (piece : Piece), piece ∈ pieces ∧ m.step piece = .error f := by
  induction pieces generalizing n with
  | nil => cases h
  | cons piece rest ih =>
    rw [List.foldlM_cons] at h
    cases hstep : n.step piece with
    | error g =>
      rw [hstep] at h
      cases h
      exact ⟨n, piece, .head _, hstep⟩
    | ok m =>
      rw [hstep] at h
      obtain ⟨k, p, hp, hk⟩ := ih h
      exact ⟨k, p, .tail _ hp, hk⟩

/-- The fault of a text is at a place of the text. -/
theorem finds_of_readProgram {text : List Char} {f : Fault} (h : readProgram text = .error f) :
    (Cursor.start text).Finds f := by
  obtain ⟨c, hc⟩ : ∃ c, c = Cursor.start text := ⟨_, rfl⟩
  obtain ⟨hok, herror⟩ := c.ending_pieces
  rw [readProgram, ← hc, nest] at h
  rw [← hc]
  cases hfold : (trimPieces false c.pieces.1).foldlM Nesting.step {} with
  | error g =>
    simp only [hfold, bind, Except.bind] at h
    cases h
    obtain ⟨n, piece, hmem, hstep⟩ := Nesting.exists_step_of_foldlM hfold
    obtain ⟨t, rfl, hplace⟩ := Nesting.place_of_step hstep
    obtain ⟨⟨d, hd, hstart⟩, ⟨e, he, hstop⟩⟩ :=
      Cursor.holds_of_mem_pieces (mem_of_mem_trimPieces hmem)
    rw [← hstart, ← hstop] at hplace
    rcases hplace with hplace | hplace
    · exact ⟨e, he, .inl hplace⟩
    · exact ⟨d, hd, .inr hplace⟩
  | ok n =>
    simp only [hfold, bind, Except.bind] at h
    cases hending : c.pieces.2 with
    | error g =>
      simp only [hending] at h
      cases h
      exact herror _ hending
    | ok stop =>
      simp only [hending, Nesting.finish] at h
      obtain ⟨d, hd, rfl⟩ := hok stop hending
      split at h
      · cases h
      · cases h
        exact ⟨d, hd, .inl rfl⟩

end Stencil
