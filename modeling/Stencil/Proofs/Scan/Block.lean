import Stencil.Proofs.Scan.Tag
import Stencil.Proofs.Pieces

/-!
Blocks that are scanned. A scan reads a block with the tag that opens it, and counts how many are
open; the reader of pieces keeps the open blocks in a list. So what a scan of a part has come to is
told by the program that the whole text is read as: reading on from there, with the blocks that are
open and the statements before, gives the same program or the same fault.
-/
namespace Stencil

namespace Nesting

/-- The program of the text that follows `c`, behind a piece that asks for trimming if `trim`. -/
def onward (n : Nesting) (trim : Bool) (c : Cursor) : Except Fault Program := do
  let m ← (trimPieces trim c.pieces.1).foldlM step n
  let stop ← c.pieces.2
  m.finish stop

variable {n : Nesting} {trim : Bool} {c d : Cursor}

theorem onward_end (h : c.rest = []) : n.onward trim c = n.finish c.mark := by
  obtain ⟨m, s⟩ := c
  obtain rfl : s = [] := h
  rw [onward, Cursor.pieces_nil]
  rfl

theorem onward_tag {t : Tag} (h : c.follows ['{', '{'] = true) (ht : c.tag = .ok (t, d)) :
    n.onward trim c = n.step (.tag t) >>= fun m => m.onward t.trimAfter d := by
  have hpieces := Cursor.pieces_tag (List.isPrefixOf_iff_prefix.mp h) ht
  rw [onward, hpieces]
  simp only [trimPieces, List.foldlM_cons, bind_assoc]
  rfl

theorem onward_fault {f : Fault} (h : c.follows ['{', '{'] = true) (ht : c.tag = .error f) :
    n.onward trim c = .error f := by
  have hne : c.rest ≠ [] := fun hnil => by simp [Cursor.follows, hnil] at h
  have hpieces : c.pieces = ([], .error f) := by
    rw [Cursor.pieces]
    simp only [hne, h, dif_neg, dif_pos, not_false_eq_true]
    split
    next hf =>
      rw [ht] at hf
      cases hf
      rfl
    next hok =>
      rw [ht] at hok
      cases hok
  rw [onward, hpieces]
  rfl

/-- The nesting with a raw text more, unless nothing of it remains. -/
def pushRaw (n : Nesting) (text : List Char) : Nesting :=
  if text.isEmpty then n else n.push (.raw (String.ofList text))

theorem onward_raw (hne : c.rest ≠ []) (h : c.follows ['{', '{'] = false) :
    n.onward trim c =
      (n.pushRaw (trimSides trim (trimsBefore (c.reach (rawText c.rest).2).pieces.1)
        (rawText c.rest).1)).onward false (c.reach (rawText c.rest).2) := by
  have hpieces := Cursor.pieces_of_raw hne fun hb => by
    simp [Cursor.follows, List.isPrefixOf_iff_prefix.mpr hb] at h
  rw [onward, hpieces, trimPieces_raw]
  generalize trimSides _ _ _ = text
  rw [pushRaw, keptRaw]
  split
  · rfl
  · simp only [List.singleton_append, List.foldlM_cons, bind_assoc]
    rfl

/-- The program of the text that follows a tag with `body`, from the tag on. -/
def behindTag (n : Nesting) (body : TagBody) (start : Nat) (trim : Bool) (c : Cursor) :
    Except Fault Program :=
  n.step (.tag ⟨body, start, c.mark, false, trim⟩) >>= fun m => m.onward trim c

/-- The tag at `c`, behind its opening braces. -/
theorem onward_braces (h : c.follows ['{', '{'] = true) :
    n.onward trim c =
      ((c.advance 2).advance ((c.advance 2).follows ['~']).toNat).tagBody >>=
        fun ((body, trim), d) => n.behindTag body c.mark.offset trim d := by
  cases hbody : ((c.advance 2).advance ((c.advance 2).follows ['~']).toNat).tagBody with
  | error f =>
    have htag : c.tag = .error f := by
      rw [Cursor.tag]
      simp only [hbody]
      rfl
    exact onward_fault h htag
  | ok p =>
    obtain ⟨⟨body, after⟩, d⟩ := p
    have htag : c.tag =
        .ok (⟨body, c.mark.offset, d.mark, (c.advance 2).follows ['~'], after⟩, d) := by
      rw [Cursor.tag]
      simp only [hbody]
      rfl
    refine (onward_tag h htag).trans ?_
    cases body <;> rfl

theorem trimsBefore_braces (h : c.follows ['{', '{'] = true) {p : TagBody × Bool}
    (hbody : ((c.advance 2).advance ((c.advance 2).follows ['~']).toNat).tagBody = .ok (p, d)) :
    trimsBefore c.pieces.1 = (c.advance 2).follows ['~'] := by
  have htag : c.tag = .ok (⟨p.1, c.mark.offset, d.mark, (c.advance 2).follows ['~'], p.2⟩, d) := by
    rw [Cursor.tag]
    simp only [hbody]
    rfl
  rw [Cursor.pieces_tag (List.isPrefixOf_iff_prefix.mp h) htag]
  rfl

/-- The nesting behind a block that was opened in it as `block` and is read as `statement`; a block
that is chained ends the one around it. -/
def afterBlock (n : Nesting) (block : OpenBlock) (statement : Statement) : Nesting :=
  if block.chained then endBlock n.blocks [statement]
  else ⟨n.blocks, block.before ++ [statement]⟩

end Nesting

namespace Scan

variable {α β σ ρ : Type} {text : List Char} {V : Except Fault Program} {c d : Cursor}
  {trims : Bool} {depth : Nat}

/-- `m` runs well from the place of `c`, with `depth` blocks open and `trims` kept, where the whole
text is read as `V`. It leaves as many blocks open and has a value for which `good` says how to go
on to `V` from the place where it stopped; or it fails with the error of a fault that `V` is. -/
def Ends (text : List Char) (V : Except Fault Program) (m : Scan α) (c : Cursor) (trims : Bool)
    (depth : Nat) (good : α → Bool → Cursor → Prop) : Prop :=
  (Cursor.start text).LeadsTo c → Runs text m ⟨c.mark, trims, depth⟩ fun result t =>
    t.depth = depth ∧
      match result with
      | .ok a => ∃ d, c.LeadsTo d ∧ t.mark = d.mark ∧ good a t.trims d
      | .error e => ∃ f, V = .error f ∧ e = f.error text

section
variable {m : Scan α} {good : α → Bool → Cursor → Prop} {good' : β → Bool → Cursor → Prop}

theorem Ends.bind {k : α → Scan β} (h : Ends text V m c trims depth good)
    (next : ∀ a trims d, c.LeadsTo d → good a trims d → Ends text V (k a) d trims depth good') :
    Ends text V (m >>= k) c trims depth good' := by
  intro hc
  refine (h hc).bind (fun a t ht => ?_) fun _ _ he => he
  obtain ⟨rfl, d, hd, hmark, hgood⟩ := ht
  obtain ⟨mark, trims', depth⟩ := t
  obtain rfl : mark = d.mark := hmark
  refine (next a trims' d hd hgood (hc.trans hd)).mono fun result t ht => ?_
  cases result with
  | error e => exact ht
  | ok b =>
    obtain ⟨hdepth, e, he, hmark, hgood⟩ := ht
    exact ⟨hdepth, e, hd.trans he, hmark, hgood⟩

theorem Ends.within (h : (Cursor.start text).LeadsTo c → Ends text V m c trims depth good) :
    Ends text V m c trims depth good := fun hc => h hc hc

theorem ends_pure {a : α} (h : good a trims c) : Ends text V (pure a) c trims depth good :=
  fun _ => runs_pure ⟨rfl, c, .refl c, rfl, h⟩

/-- A part without blocks, which does not trim. -/
theorem Ends.of_reads {r : Except Fault (α × Cursor)} (h : Reads text m c r)
    (hok : ∀ a d, r = .ok (a, d) → c.LeadsTo d → good a trims d)
    (herror : ∀ f, r = .error f → V = .error f) : Ends text V m c trims depth good := by
  intro hc
  refine (h hc ⟨c.mark, trims, depth⟩ rfl).mono fun result t ht => ?_
  cases r with
  | error f =>
    obtain ⟨rfl, hdepth⟩ := ht
    exact ⟨hdepth, f, herror f rfl, rfl⟩
  | ok p =>
    obtain ⟨rfl, rfl, hd⟩ := ht
    exact ⟨rfl, p.2, hd, rfl, hok p.1 p.2 rfl hd⟩

/-- A part without blocks that may trim. -/
theorem Ends.of_trims {r : Except Fault ((α × Bool) × Cursor)} (h : Trims text m c r)
    (hok : ∀ a trims d, r = .ok ((a, trims), d) → c.LeadsTo d → good a trims d)
    (herror : ∀ f, r = .error f → V = .error f) : Ends text V m c trims depth good := by
  intro hc
  refine (h hc ⟨c.mark, trims, depth⟩ rfl).mono fun result t ht => ?_
  cases r with
  | error f =>
    obtain ⟨rfl, hdepth⟩ := ht
    exact ⟨hdepth, f, herror f rfl, rfl⟩
  | ok p =>
    obtain ⟨rfl, rfl, hd⟩ := ht
    exact ⟨rfl, p.2, hd, rfl, hok p.1.1 p.1.2 p.2 rfl hd⟩

theorem Ends.andThen {m : Scan β} {k : β → Scan α} {b : β} (h : Reads text m c (.ok (b, d)))
    (next : c.LeadsTo d → Ends text V (k b) d trims depth good) :
    Ends text V (m >>= k) c trims depth good := by
  have hstep : Ends text V m c trims depth fun b' trims' d' => b' = b ∧ trims' = trims ∧ d' = d :=
    .of_reads h (fun _ _ he _ => by cases he; exact ⟨rfl, rfl, rfl⟩) nofun
  refine hstep.bind fun b' trims' d' hd ⟨hb, htrims, hd'⟩ => ?_
  subst hb htrims hd'
  exact next hd

theorem Ends.state {k : State → Scan α}
    (next : Ends text V (k ⟨c.mark, trims, depth⟩) c trims depth good) :
    Ends text V (state >>= k) c trims depth good := fun hc =>
  Runs.andThen gives_state (next hc)

theorem Ends.keep {k : Unit → Scan α} (kept : Bool) (next : Ends text V (k ()) c kept depth good) :
    Ends text V (update (fun s => { s with trims := kept }) >>= k) c trims depth good := fun hc =>
  Runs.andThen gives_update (next hc)

theorem Ends.reading {part : Part} (h : Ends text V m c trims depth good)
    (hshort : ∀ a trims d, good a trims d → d.rest.length < c.rest.length) :
    Ends text V (reading part m) c trims depth good := fun hc =>
  runs_reading ((h hc).mono fun result t ht => ⟨ht, fun a ha => by
    subst ha
    obtain ⟨-, d, hd, hmark, hgood⟩ := ht
    rw [hmark]
    exact hd.offset_lt (hshort a _ d hgood)⟩)

theorem Ends.loop {body : σ → Scan (Turn σ ρ)} {good : ρ → Bool → Cursor → Prop}
    (inv : σ → Bool → Cursor → Prop)
    (step : ∀ a trims c, inv a trims c →
      Ends text V (body a) c trims depth fun turn trims d =>
        match turn with
        | .again b => inv b trims d ∧ d.rest.length < c.rest.length
        | .done x => good x trims d)
    {name : Loop} {a : σ} (h : inv a trims c) :
    Ends text V (loop name body a) c trims depth good := by
  intro hc
  refine Runs.loop
    (fun a t => t.depth = depth ∧ ∃ d, c.LeadsTo d ∧ t.mark = d.mark ∧ inv a t.trims d)
    (fun a t ⟨_, d, hd, hmark, _⟩ => ?_) (fun a t ⟨hdepth, d, hd, hmark, ha⟩ => ?_)
    ⟨rfl, c, .refl c, rfl, h⟩
  · obtain ⟨before, htext, -, hoffset⟩ := Cursor.exists_before (hc.trans hd)
    rw [hmark, hoffset, htext, byteLength_append]
    exact Nat.le_add_right _ _
  · obtain ⟨mark, trims', depth'⟩ := t
    obtain rfl : depth' = depth := hdepth
    obtain rfl : mark = d.mark := hmark
    refine (step a trims' d ha (hc.trans hd)).mono fun result t ht => ?_
    obtain ⟨hdepth, ht⟩ := ht
    cases result with
    | error e => exact ⟨hdepth, ht⟩
    | ok turn =>
      obtain ⟨e, he, hmark, hturn⟩ := ht
      cases turn with
      | again b =>
        exact ⟨⟨hdepth, e, hd.trans he, hmark, hturn.1⟩, hmark ▸ he.offset_lt hturn.2⟩
      | done x => exact ⟨hdepth, e, hd.trans he, hmark, hturn⟩

end

/-! Raw texts. -/

/-- The raw text at `c`, behind a part of it that was read before. -/
def rawFrom (shown : List Char) (c : Cursor) : Except Fault (List Char × Cursor) :=
  .ok (shown ++ (Stencil.rawText c.rest).1, c.reach (Stencil.rawText c.rest).2)

theorem rawFrom_step {shown : List Char} (added : List Char) (h : c.LeadsTo d)
    (hraw : Stencil.rawText c.rest =
      (added ++ (Stencil.rawText d.rest).1, (Stencil.rawText d.rest).2)) :
    rawFrom shown c = rawFrom (shown ++ added) d := by
  rw [rawFrom, rawFrom, hraw, List.append_assoc, h.reach (rawText_stops d.rest).1]

theorem not_prefix_of_follows {word : List Char} (h : c.follows word = false) :
    ¬ word <+: c.rest := fun hword => by
  simp [Cursor.follows, List.isPrefixOf_iff_prefix.mpr hword] at h

theorem reads_untrimmed (c : Cursor) : Reads text untrimmed c (rawFrom [] c) := by
  refine reads_loop (F := rawFrom) (fun shown c _ => ?_) .raw [] c
  obtain ⟨m, s⟩ := c
  cases s with
  | nil =>
    refine .done (.andThen (reads_peekChar _) (reads_pure _ _)) ?_
    simp only [rawFrom, Stencil.rawText, List.append_nil]
    rfl
  | cons x rest =>
    by_cases hescaped : (Cursor.mk m (x :: rest)).follows ['\\', '\\', '{', '{'] = true
    · obtain ⟨more, hmore⟩ := exists_of_follows hescaped
      cases hmore
      refine .done (.andThen (reads_peekChar _) (.ifPeek_pos hescaped
        (.andThen (reads_skip (s := ['\\', '\\']) rfl (by decide)) (reads_pure _ _)))) ?_
      rw [rawFrom, Cursor.reach_eq_advance (s := ['\\', '\\']) rfl]
      rfl
    rw [Bool.not_eq_true] at hescaped
    by_cases hraw : (Cursor.mk m (x :: rest)).follows ['\\', '{', '{'] = true
    · obtain ⟨more, hmore⟩ := exists_of_follows hraw
      cases hmore
      exact .again (.andThen (reads_peekChar _) (.ifPeek_neg hescaped (.ifPeek_pos hraw
          (.andThen (reads_skip (s := ['\\', '{', '{']) rfl (by decide)) (reads_pure _ _)))))
        (length_advance_lt rfl) (rawFrom_step ['{', '{'] (Cursor.leadsTo_advance _ 3) rfl)
    rw [Bool.not_eq_true] at hraw
    by_cases htag : (Cursor.mk m (x :: rest)).follows ['{', '{'] = true
    · refine .done (.andThen (reads_peekChar _) (.ifPeek_neg hescaped (.ifPeek_neg hraw
        (.ifPeek_pos htag (reads_pure _ _))))) ?_
      rw [rawFrom, rawText_of_braces (List.isPrefixOf_iff_prefix.mp htag), Cursor.reach_self,
        List.append_nil]
    rw [Bool.not_eq_true] at htag
    refine .again (.andThen (reads_peekChar _) (.ifPeek_neg hescaped (.ifPeek_neg hraw
        (.ifPeek_neg htag (.andThen (reads_advance rfl) (reads_pure _ _))))))
      (length_advance_lt rfl) (rawFrom_step [x] (Cursor.leadsTo_advance _ 1) ?_)
    refine Written.rawText_cons (not_prefix_of_follows htag) ?_
    rintro rfl
    exact ⟨fun h => not_prefix_of_follows hraw (List.cons_prefix_cons.mpr ⟨rfl, h⟩),
      fun h => not_prefix_of_follows hescaped (List.cons_prefix_cons.mpr ⟨rfl, h⟩)⟩

theorem ends_rawText (V : Except Fault Program) (c : Cursor) (trims : Bool) (depth : Nat) :
    Ends text V rawText c trims depth fun shown trims' d =>
      trims' = false ∧ d = c.reach (Stencil.rawText c.rest).2 ∧
        shown = trimSides trims false (Stencil.rawText c.rest).1 :=
  .andThen (reads_untrimmed c) fun _ => .state (.keep false (ends_pure ⟨rfl, rfl, rfl⟩))

/-! Tags. -/

/-- `inner` reads a block where `depth` blocks are open, from behind the tag that opens it. -/
def Opens (text : List Char) (inner : Inner) (depth : Nat) : Prop :=
  ∀ (n : Nesting) (block : OpenBlock) (V : Except Fault Program) (c : Cursor) (trims : Bool),
    n.blocks.length = depth → block.first = none →
    V = n.openBlock block c.mark >>= (fun m => m.onward trims c) →
    Ends text V (inner block.head block.name block.inverted) c trims depth fun statement trims d =>
      Written.isRaw statement = false ∧ V = (n.afterBlock block statement).onward trims d

/-- What a tag would be that comes to the same. -/
def Read.body : Read → TagBody
  | .statement s => .statement s
  | .otherwise chain => .otherwise chain
  | .closing path => .closing path

theorem ends_tag {inner : Inner} {n : Nesting} {start : Nat} (hinner : Opens text inner depth)
    (hdepth : n.blocks.length = depth)
    (hV : V = c.tagBody >>= fun ((body, trims), d) => n.behindTag body start trims d) :
    Ends text V (tag inner) c trims depth fun read trims d =>
      d.rest.length < c.rest.length ∧ (∀ s, read = .statement s → Written.isRaw s = false) ∧
        V = n.behindTag read.body start trims d := by
  have hread : Ends text V tagBody c trims depth fun body trims d =>
      c.tagBody = .ok ((body, trims), d) := by
    refine .of_trims (trims_tagBody c) (fun _ _ _ h _ => h) fun f h => ?_
    rw [hV, h]
    rfl
  refine .reading (.bind hread fun body trims d hd hbody => ?_) fun _ _ _ h => h.1
  have hshort := length_tagBody_lt hbody
  have hread := Cursor.read_tagBody hbody
  rw [hbody] at hV
  change V = n.behindTag body start trims d at hV
  cases body with
  | statement s =>
    exact ends_pure ⟨hshort, fun _ h => by cases h; exact hread.flat.1, hV⟩
  | otherwise chain => exact ends_pure ⟨hshort, nofun, hV⟩
  | closing path => exact ends_pure ⟨hshort, nofun, hV⟩
  | opening inverted head =>
    refine .bind (hinner n ⟨head, head.path.source, inverted, false, n.present, none⟩ V d trims
      hdepth rfl hV) fun s trims e he ⟨hraw, hV⟩ => ends_pure ⟨?_, ?_, hV⟩
    · exact Nat.lt_of_le_of_lt he.suffix.length_le hshort
    · exact fun _ h => by cases h; exact hraw

/-! Statements. -/

/-- How reading goes on behind what ends a run of statements, of which `n` has the last section. -/
def Terminator.resume (n : Nesting) (trims : Bool) (c : Cursor) : Terminator → Except Fault Program
  | .endOfText => n.finish c.mark
  | .otherwise chain start => n.behindTag (.otherwise chain) start trims c
  | .closing path start => n.behindTag (.closing path) start trims c

/-- A tag that ends a run of statements starts in the text. -/
def Terminator.Placed (text : List Char) : Terminator → Prop
  | .endOfText => True
  | .otherwise _ start | .closing _ start =>
    ∃ d, (Cursor.start text).LeadsTo d ∧ d.mark.offset = start

theorem trimLast_append {program : Program} {s : Statement} (h : Written.isRaw s = false) :
    trimLast (program ++ [s]) = program ++ [s] := by
  cases s with
  | raw => cases h
  | comment | tag | insertion | block => simp [trimLast]

theorem trimLast_append_raw (program : Program) (shown : List Char) :
    trimLast (program ++ [.raw (String.ofList shown)]) =
      program ++
        if (trimEnd shown).isEmpty then [] else [.raw (String.ofList (trimEnd shown))] := by
  simp [trimLast]

/-- What is in the present section of the reader of pieces, which trims a raw text at once. -/
def present (program : Program) (c : Cursor) : Program :=
  if trimsBefore c.pieces.1 then trimLast program else program

/-- Where a run of statements stands between two of them. -/
structure Between (V : Except Fault Program) (blocks : List OpenBlock) (program : Program)
    (trims : Bool) (c : Cursor) : Prop where
  onward : V = (Nesting.mk blocks (present program c)).onward trims c
  settled : c.rest ≠ [] → c.follows ['{', '{'] = false → trimLast program = program

section
variable {blocks : List OpenBlock} {program : Program}

theorem Between.raw (h : Between V blocks program trims c) (hne : c.rest ≠ [])
    (hbraces : c.follows ['{', '{'] = false) {shown : List Char}
    (hshown : shown = trimSides trims false (Stencil.rawText c.rest).1) :
    Between V blocks (if shown.isEmpty then program else program ++ [.raw (String.ofList shown)])
      false (c.reach (Stencil.rawText c.rest).2) := by
  have hpieces := Cursor.pieces_of_raw hne (not_prefix_of_follows hbraces)
  have hpresent : present program c = program := by
    rw [present, hpieces]
    rfl
  refine ⟨?_, fun hrest hno => ?_⟩
  · rw [h.onward, hpresent, Nesting.onward_raw hne hbraces, present]
    congr 1
    cases trimsBefore (c.reach (Stencil.rawText c.rest).2).pieces.1 with
    | false =>
      rw [← hshown, Nesting.pushRaw]
      split <;> rfl
    | true =>
      have htrimmed : trimSides trims true (Stencil.rawText c.rest).1 = trimEnd shown := by
        rw [hshown]
        rfl
      rw [htrimmed, Nesting.pushRaw, if_pos rfl]
      by_cases hempty : shown.isEmpty
      · rw [if_pos hempty, List.isEmpty_iff.mp hempty, h.settled hne hbraces]
        rfl
      · rw [if_neg hempty, trimLast_append_raw]
        split
        · rw [List.append_nil]
        · rfl
  · -- a raw text ends at a tag or with the text
    obtain ⟨hsuffix, hend | htag⟩ := rawText_stops c.rest
    · exact absurd ((Cursor.rest_reach hsuffix).trans hend) hrest
    · rw [← Cursor.rest_reach hsuffix] at htag
      exact absurd htag (not_prefix_of_follows hno)

theorem Between.tag (h : Between V blocks program trims c) (hbraces : c.follows ['{', '{'] = true) :
    V = ((c.advance 2).advance ((c.advance 2).follows ['~']).toNat).tagBody >>=
      fun ((body, trims), d) => (Nesting.mk blocks
        (if (c.advance 2).follows ['~'] then trimLast program else program)).behindTag
          body c.mark.offset trims d := by
  rw [h.onward, Nesting.onward_braces hbraces, present]
  cases hbody : ((c.advance 2).advance ((c.advance 2).follows ['~']).toNat).tagBody with
  | error f => rfl
  | ok p => rw [Nesting.trimsBefore_braces hbraces hbody]

/-- A statement that is no raw text is not trimmed. -/
theorem Between.statement {s : Statement} (hs : Written.isRaw s = false)
    (h : V = (Nesting.mk blocks (program ++ [s])).onward trims c) :
    Between V blocks (program ++ [s]) trims c := by
  have hpresent : present (program ++ [s]) c = program ++ [s] := by
    rw [present, trimLast_append hs, ite_self]
  exact ⟨by rw [h, hpresent], fun _ _ => trimLast_append hs⟩

theorem ends_statements {inner : Inner} (blocks : List OpenBlock) (hinner : Opens text inner depth)
    (hdepth : blocks.length = depth) (hV : V = (Nesting.mk blocks []).onward trims c) :
    Ends text V (statements inner) c trims depth fun (program, terminator) trims d =>
      terminator.Placed text ∧ V = terminator.resume ⟨blocks, program⟩ trims d := by
  refine .loop (Between V blocks) (fun program trims c h => ?_) ⟨?_, fun _ _ => rfl⟩
  · refine .within fun hc => .andThen (reads_atEnd c) fun _ => ?_
    split
    next hend =>
      have hrest : c.rest = [] := List.isEmpty_iff.mp hend
      have hpresent : present program c = program := by
        rw [present, Cursor.pieces]
        simp [hrest, trimsBefore]
      have hV := h.onward
      rw [hpresent, Nesting.onward_end hrest] at hV
      exact ends_pure ⟨trivial, hV⟩
    next hend =>
      have hne : c.rest ≠ [] := fun hnil => hend (List.isEmpty_iff.mpr hnil)
      refine .andThen (reads_peek _ c) fun _ => ?_
      split
      next hbraces =>
        obtain ⟨rest, hrest⟩ := exists_of_follows hbraces
        refine .andThen (reads_offset c) fun _ =>
          .andThen (reads_skip hrest (by decide)) fun hskip =>
            .keep false (.andThen (reads_consume (by decide) _) fun hmark => ?_)
        have hV := h.tag hbraces
        rw [advance_toNat] at hV
        refine .bind (ends_tag hinner hdepth hV) fun read trims e _ hread => ?_
        obtain ⟨hshort, hraw, hV⟩ := hread
        cases read with
        | statement s =>
          exact ends_pure ⟨.statement (hraw s rfl) hV,
            Nat.lt_of_lt_of_le hshort (hskip.trans hmark).suffix.length_le⟩
        | otherwise chain => exact ends_pure ⟨⟨c, hc, rfl⟩, hV⟩
        | closing path => exact ends_pure ⟨⟨c, hc, rfl⟩, hV⟩
      next hbraces =>
        have hbraces : c.follows ['{', '{'] = false := by simpa using hbraces
        refine .bind (ends_rawText V c trims depth) fun shown trims' d _ hread => ?_
        obtain ⟨rfl, rfl, hshown⟩ := hread
        refine ends_pure ⟨h.raw hne hbraces hshown, ?_⟩
        rw [Cursor.length_reach (rawText_length_le _)]
        exact rawText_length_lt hbraces hne
  · have hnil : present [] c = [] := by
      rw [present]
      exact ite_self _
    rw [hnil, hV]

end

/-! Blocks. -/

/-- `inner` reads a block of which the tag that opens it is counted, besides `depth` others. -/
def Closes (text : List Char) (inner : Inner) (depth : Nat) : Prop :=
  ∀ (n : Nesting) (block : OpenBlock) (V : Except Fault Program) (c : Cursor) (trims : Bool),
    n.blocks.length = depth → block.first = none →
    V = (Nesting.mk (block :: n.blocks) []).onward trims c →
    Ends text V (inner block.head block.name block.inverted) c trims (depth + 1)
      fun statement trims d =>
        Written.isRaw statement = false ∧ V = (n.afterBlock block statement).onward trims d

theorem ends_fail {kind : ParseFailure} {good : α → Bool → Cursor → Prop}
    (hV : V = .error (c.fault kind)) : Ends text V (fail kind) c trims depth good :=
  .of_reads (follows_fail kind c) nofun fun _ h => by cases h; exact hV

theorem ends_failAt {start : Nat} {kind : ParseFailure} {good : α → Bool → Cursor → Prop}
    (hplaced : ∃ d, (Cursor.start text).LeadsTo d ∧ d.mark.offset = start)
    (hV : V = .error ⟨.earlier start, kind⟩) :
    Ends text V (failAt start kind) c trims depth good := by
  obtain ⟨d, hd, rfl⟩ := hplaced
  exact .of_reads (follows_failAt hd kind c) nofun fun _ h => by cases h; exact hV

/-- The closing tag of a block, whose name is checked. -/
theorem ends_checkName (block : OpenBlock) {outer : List OpenBlock} {program : Program}
    {path : Path} {start : Nat}
    (hplaced : ∃ d, (Cursor.start text).LeadsTo d ∧ d.mark.offset = start)
    (hV : V = (Nesting.mk (block :: outer) program).behindTag (.closing path) start trims c) :
    Ends text V (checkName block.name path start) c trims depth fun _ trims d =>
      V = (endBlock (block :: outer) program).onward trims d := by
  have hclose : V = (if path.source = block.name then .ok (endBlock (block :: outer) program)
      else .error ⟨.earlier start, .mismatchedClose block.name path.source⟩) >>=
        fun m => m.onward trims c := hV
  rw [checkName]
  split
  next hname =>
    rw [if_pos hname] at hclose
    exact ends_pure hclose
  next hname =>
    rw [if_neg hname] at hclose
    exact ends_failAt hplaced hclose

/-- A block without an else has an empty second section. -/
theorem endBlock_undivided {block : OpenBlock} (h : block.first = none) (outer : List OpenBlock)
    (first : Program) :
    endBlock (block :: outer) first =
      endBlock ({ block with first := some first } :: outer) [] := by
  simp [endBlock, OpenBlock.close, h]

section
variable {block : OpenBlock} {outer : List OpenBlock} {first : Program} {start : Nat} {trim : Bool}

theorem behindTag_else (h : block.first = none) :
    (Nesting.mk (block :: outer) first).behindTag (.otherwise none) start trim c =
      (Nesting.mk ({ block with first := some first } :: outer) []).onward trim c := by
  simp only [Nesting.behindTag, Nesting.step, Nesting.beginElse, h, Option.isSome_none,
    Bool.false_eq_true, if_false]
  rfl

theorem behindTag_chained (h : block.first = none) (head : BlockHead) :
    (Nesting.mk (block :: outer) first).behindTag (.otherwise (some head)) start trim c =
      (Nesting.mk ({ block with first := some first } :: outer) []).openBlock
        ⟨head, block.name, false, true, [], none⟩ c.mark >>= fun m => m.onward trim c := by
  simp only [Nesting.behindTag, Nesting.step, Nesting.beginElse, h, Option.isSome_none,
    Bool.false_eq_true, if_false]

end

theorem ends_secondSection {inner : Inner} {block : OpenBlock} {outer : List OpenBlock}
    {first : Program} {terminator : Terminator} (hinner : Opens text inner (outer.length + 1))
    (hfirst : block.first = none) (hplaced : terminator.Placed text)
    (hV : V = terminator.resume ⟨block :: outer, first⟩ trims c) :
    Ends text V (secondSection inner block.name terminator) c trims (outer.length + 1)
      fun second trims d =>
        V = (endBlock ({ block with first := some first } :: outer) second).onward trims d := by
  cases terminator with
  | endOfText => exact ends_fail hV
  | closing path start =>
    refine .bind (ends_checkName block hplaced hV) fun _ trims d _ hV => ends_pure ?_
    rwa [endBlock_undivided hfirst] at hV
  | otherwise chain start =>
    cases chain with
    | none =>
      refine .bind (ends_statements _ hinner rfl (hV.trans (behindTag_else hfirst)))
        fun (second, terminator) trims d _ ⟨hplaced, hV⟩ => ?_
      cases terminator with
      | endOfText => exact ends_fail hV
      | closing path start =>
        exact .bind (ends_checkName { block with first := some first } hplaced hV)
          fun _ trims d _ hV => ends_pure hV
      | otherwise chain start => exact ends_failAt hplaced hV
    | some head =>
      exact .bind (hinner _ ⟨head, block.name, false, true, [], none⟩ V c trims rfl rfl
        (hV.trans (behindTag_chained hfirst head))) fun s trims d _ ⟨_, hV⟩ => ends_pure hV

theorem closes_sections {inner : Inner} (hinner : Opens text inner (depth + 1)) :
    Closes text (sections inner) depth := by
  intro n block V c trims hdepth hfirst hV
  subst hdepth
  refine .bind (ends_statements _ hinner rfl hV)
    fun (first, terminator) trims d _ ⟨hplaced, hV⟩ => ?_
  refine .bind (ends_secondSection hinner hfirst hplaced hV) fun second trims e _ hV => ?_
  refine ends_pure ⟨?_, hV⟩
  cases block.inverted <;> rfl

theorem opens_nested {inner : Inner} (h : depth < maxBlockDepth → Closes text inner depth) :
    Opens text (nested inner) depth := by
  intro n block V c trims hdepth hfirst hV
  by_cases hroom : depth < maxBlockDepth
  · have hopen : V = (Nesting.mk (block :: n.blocks) []).onward trims c := by
      rw [hV, Nesting.openBlock, if_neg (by omega)]
      rfl
    have hcloses := h hroom n block V c trims hdepth hfirst hopen
    intro hc
    refine Runs.andThen gives_state ?_
    rw [if_neg (show ¬ maxBlockDepth ≤ depth by omega)]
    refine Runs.andThen gives_update ((hcloses hc).attempt.bind (fun _ t ht => ?_)
      fun _ _ ht => ?_)
    · obtain ⟨result, hresult, hdepth, ht⟩ := ht
      cases hresult
      refine Runs.andThen gives_state (Runs.andThen (gives_minus ?_) (Runs.andThen gives_update
        (runs_ofExcept ⟨?_, ht⟩)))
      · omega
      · exact Nat.sub_eq_of_eq_add hdepth
    · obtain ⟨_, hresult, _⟩ := ht
      cases hresult
  · have hfull : V = .error (c.fault (.nestingTooDeep maxBlockDepth)) := by
      rw [hV, Nesting.openBlock, if_pos (by omega)]
      rfl
    refine .state ?_
    rw [if_pos (show maxBlockDepth ≤ depth by omega)]
    exact ends_fail hfull

/-- Blocks are read as deep as they may nest. -/
theorem opens_block {levels : Nat} (h : maxBlockDepth ≤ depth + levels) :
    Opens text (block levels) depth := by
  induction levels generalizing depth with
  | zero => exact opens_nested fun hdepth => absurd h (Nat.not_le.mpr hdepth)
  | succ levels ih => exact opens_nested fun _ => closes_sections (ih (by omega))

end Scan
end Stencil
