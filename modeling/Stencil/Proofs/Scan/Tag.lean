import Stencil.Proofs.Scan.Word
import Stencil.Proofs.Lookahead.Tag

/-!
Tags that are scanned, from behind their opening braces to behind their closing ones. A scan of a
tag keeps whether the tag trims the text after it, until that text is scanned.
-/
namespace Stencil

namespace Cursor

/-- Arguments end with the tag, or go on with one that is named, or with one that may still be
positional. -/
theorem arguments_eq (c : Cursor) (rule : ParamRule) (found : Arguments) :
    c.arguments rule found =
      let d := c.skipSpace
      if d.atTagEnd then .ok (found, d)
      else if d.parameterName?.isNone && !rule.admits found then
        .error (d.fault (.expected rule.complaint))
      else (d.parameterName?.elim d d.skipName).expression >>= fun (e, after) =>
        after.arguments rule (found.add (d.parameterName?.map String.ofList) e) := by
  rw [arguments]
  dsimp only
  split
  · rfl
  · split
    · rfl
    · split
      next h => rw [h]; rfl
      next h => rw [h]; rfl

end Cursor

namespace Scan

variable {α β γ : Type} {text : List Char} {c d e : Cursor}

/-! Arguments. -/

theorem reads_atTagEnd (c : Cursor) : Reads text atTagEnd c (.ok (c.atTagEnd, c)) := by
  refine .ifPeek (fun h => ?_) fun h => ?_
  · rw [Cursor.atTagEnd, h]
    exact reads_pure _ c
  · rw [Cursor.atTagEnd, h]
    exact reads_peek _ c

theorem Follows.ifAtTagEnd {view : β → α} {settle : β → State → State} {yes no : Scan α}
    {r : Except Fault (β × Cursor)} (hyes : c.atTagEnd = true → Follows text view settle yes c r)
    (hno : c.atTagEnd = false → Follows text view settle no c r) :
    Follows text view settle (atTagEnd >>= fun found => if found then yes else no) c r := by
  refine .andThen (reads_atTagEnd c) ?_
  cases h : c.atTagEnd with
  | true => exact hyes h
  | false => exact hno h

theorem reads_parameterName? (c : Cursor) :
    Reads text parameterName? c (.ok (c.parameterName?, c)) := by
  rw [Cursor.parameterName?]
  simp only [drop_length_takeWhile]
  refine .within fun hc => .andThen (reads_offset c)
    (.ifRun (fun hnone => ?_) fun name hname hne hsplit => ?_)
  · rw [hnone]
    exact reads_pure _ c
  · have hsome : (!name.isEmpty) = true := by simpa using hne
    rw [hname, hsome, Bool.true_and]
    refine .andThen (reads_cutFrom hc hsplit c) ?_
    split
    · exact .andThen (reads_cut_behind hc hsplit c) (reads_pure _ c)
    · exact reads_pure _ c

/-- The equals sign behind the name of a parameter, and what stands around it. -/
theorem equals_of_parameterName? {name : List Char} (h : c.parameterName? = some name) :
    (∃ t, c.rest = name ++ t) ∧ '\n' ∉ name ∧
      (c.advance name.length).skipSpace.follows ['='] = true := by
  rw [Cursor.parameterName?] at h
  split at h
  next hname =>
    cases h
    refine ⟨⟨_, (List.takeWhile_append_dropWhile (p := isNameChar)).symm⟩,
      notMem_takeWhile (by decide) c.rest, ?_⟩
    have hspace : (c.advance (c.rest.takeWhile isNameChar).length).skipSpace.rest =
        trimStart (c.rest.drop (c.rest.takeWhile isNameChar).length) :=
      drop_length_takeWhile isSpace _
    generalize (c.advance (c.rest.takeWhile isNameChar).length).skipSpace = d at hspace ⊢
    obtain ⟨m, t⟩ := d
    rw [Cursor.follows_singleton, show t = _ from hspace]
    exact (Bool.and_eq_true_iff.mp hname).2
  next => cases h

theorem reads_namedValue {name : List Char} (h : c.parameterName? = some name) :
    Reads text (namedValue name) c (c.skipName name).expression := by
  obtain ⟨⟨t, hrest⟩, hline, hequals⟩ := equals_of_parameterName? h
  have hexpect (d : Cursor) : Reads text (expect ['='] >>= fun _ => space >>= fun _ => expression) d
      (d.expect ['='] >>= fun e => e.skipSpace.expression) :=
    .bindExpect (by decide) fun e => .andThen (reads_space e) (reads_expression _)
  have hread := hexpect (c.advance name.length).skipSpace
  rw [Cursor.expect, if_pos hequals] at hread
  exact .andThen (reads_skip hrest hline) (.andThen (reads_space _) hread)

/-- A round that reads an argument. -/
theorem turns_argument {body : Arguments → Scan (Turn Arguments Arguments)} {rule : ParamRule}
    {found : Arguments} {name? : Option String} {m : Scan Expression}
    {r : Except Fault (Expression × Cursor)}
    (hread : Reads text m d r)
    (hshort : ∀ e after, r = .ok (e, after) → after.rest.length < c.rest.length)
    (hbody : ∀ {r}, Reads text (do return Turn.again (found.add name? (← m))) d r →
      Reads text (body found) c r)
    (hF : c.arguments rule found =
      r >>= fun (e, after) => after.arguments rule (found.add name? e)) :
    Turns text body (fun found d => d.arguments rule found) found c := by
  cases r with
  | error f => exact .failed (hbody (.failed hread)) hF
  | ok p =>
    obtain ⟨e, after⟩ := p
    exact .again (hbody (.andThen hread (reads_pure _ _))) (hshort e after rfl) hF

theorem reads_arguments (name : Loop) (rule : ParamRule) (c : Cursor) :
    Reads text (arguments name rule) c (c.arguments rule {}) := by
  refine reads_loop (F := fun found d => d.arguments rule found) (fun found c hc => ?_) name {} c
  have heq := c.arguments_eq rule found
  have hshort := c.length_skipSpace_le
  have hspace : Reads text space c _ := reads_space c
  have hend : Reads text atTagEnd c.skipSpace _ := reads_atTagEnd _
  have hname : Reads text parameterName? c.skipSpace _ := reads_parameterName? _
  generalize c.skipSpace = d at *
  dsimp only at heq
  cases h : d.atTagEnd with
  | true =>
    rw [h] at hend heq
    exact .done (.andThen hspace (.andThen hend (reads_pure _ _))) heq
  | false =>
    rw [h] at hend heq
    cases hkey : d.parameterName? with
    | some key =>
      rw [hkey] at hname heq
      refine turns_argument (reads_namedValue hkey) ?_
        (fun h => .andThen hspace (.andThen hend (.andThen hname h))) heq
      intro e after he
      exact Nat.lt_of_lt_of_le (Cursor.length_expression_lt he)
        (Nat.le_trans (Cursor.length_skipName_le d key) hshort)
    | none =>
      rw [hkey] at hname heq
      cases hadmits : rule.admits found with
      | true =>
        rw [hadmits] at heq
        refine turns_argument (reads_expression d) (fun e after he => ?_) (fun h =>
          .andThen hspace (.andThen hend (.andThen hname (by rwa [hadmits])))) heq
        exact Nat.lt_of_lt_of_le (Cursor.length_expression_lt he) hshort
      | false =>
        rw [hadmits] at heq
        refine .failed (.andThen hspace (.andThen hend (.andThen hname ?_))) heq
        rw [hadmits]
        exact follows_fail _ d

theorem reads_call (c : Cursor) : Reads text call c c.call :=
  .andThen (reads_space c) <| .bind (reads_expression _) fun _ _ _ =>
    .bind (reads_arguments _ _ _) fun _ _ _ => reads_pure _ _

theorem reads_simpleTag (escaped : Bool) (c : Cursor) :
    Reads text (simpleTag escaped) c (c.simpleTag escaped) :=
  .bind (reads_call c) fun _ _ _ => reads_pure _ _

theorem reads_blockHead (c : Cursor) : Reads text blockHead c c.blockHead := by
  refine .within fun hc => .andThen (reads_space c) (.andThen (reads_offset _)
    (.bind (reads_call _) fun p e _ => ?_))
  obtain ⟨head, arguments⟩ := p
  cases head with
  | path path => exact reads_pure _ e
  | string _ => exact follows_failAt (hc.trans c.leadsTo_skipSpace) _ e
  | numeral _ => exact follows_failAt (hc.trans c.leadsTo_skipSpace) _ e

theorem reads_partialName (c : Cursor) : Reads text partialName c c.partialName := by
  have hfollows (q : Char) : c.follows [q] = (c.rest.head? == some q) :=
    Cursor.follows_singleton c.mark q c.rest
  simp only [Cursor.partialName, hfollows, beq_iff_eq]
  refine .andThen (reads_peekChar c) ?_
  split
  next h =>
    obtain ⟨rest, hrest⟩ := List.head?_eq_some_iff.mp h
    rw [if_pos h]
    exact reads_string (by decide) (by decide) hrest
  next h =>
    obtain ⟨rest, hrest⟩ := List.head?_eq_some_iff.mp h
    rw [if_neg (by simp [h]), if_pos h]
    exact reads_string (by decide) (by decide) hrest
  next hdouble hsingle =>
    rw [if_neg hdouble, if_neg hsingle]
    refine .within fun hc => .andThen (reads_offset c)
      (.ifRun (fun hnone => ?_) fun name hname hne hsplit => ?_)
    · rw [hnone]
      exact follows_fail _ c
    · have hline : '\n' ∉ name := hname ▸ notMem_takeWhile (by decide) c.rest
      rw [hname, if_neg (by simpa using hne)]
      exact .andThen (reads_skip hsplit hline)
        (.andThen (reads_cut_behind hc hsplit _) (reads_pure _ _))

theorem reads_insertion (c : Cursor) : Reads text insertion c c.insertion :=
  .andThen (reads_space c) <| .bind (reads_partialName _) fun _ _ _ =>
    .bind (reads_arguments _ _ _) fun _ _ _ => reads_pure _ _

theorem reads_atElse (c : Cursor) : Reads text atElse c (.ok (c.atElse, c)) := by
  refine .ifPeek (fun h => ?_) fun h => ?_
  · rw [Cursor.atElse, h]
    exact .andThen (reads_ahead c) (reads_pure _ c)
  · rw [Cursor.atElse, h]
    exact reads_pure _ c

/-! Signs. -/

theorem tagSign?_eq_some {sign : Char} (hsign : sign ∈ Written.tagSigns)
    (h : c.follows [sign] = true) : c.tagSign? = some sign := by
  obtain ⟨rest, hrest⟩ := exists_of_follows h
  rw [Cursor.tagSign?, hrest]
  exact Option.filter_some_pos (List.contains_iff_mem.mpr hsign)

theorem tagSign?_eq_none (h : ∀ sign ∈ Written.tagSigns, c.follows [sign] = false) :
    c.tagSign? = none := by
  obtain ⟨m, s⟩ := c
  refine Option.filter_eq_none_iff.mpr fun sign hfirst hsign => ?_
  obtain ⟨rest, rfl⟩ := List.head?_eq_some_iff.mp hfirst
  have hno := h sign (List.contains_iff_mem.mp hsign)
  rw [Cursor.follows_cons] at hno
  cases hno

theorem reads_elseTag (c : Cursor) :
    Reads text (do
      if ← atTagEnd then return .otherwise none else return .otherwise (some (← blockHead))) c
      c.elseTag := by
  refine .ifAtTagEnd (fun h => ?_) fun h => ?_
  · rw [Cursor.elseTag, if_pos h]
    exact reads_pure _ c
  · rw [Cursor.elseTag, if_neg (by simp [h])]
    exact .bind (reads_blockHead c) fun _ _ _ => reads_pure _ _

theorem reads_signedBody (c : Cursor) :
    Reads text signedBody c ((c.advance c.tagSign?.isSome.toNat).signedBody c.tagSign?) := by
  refine .ifConsume (by decide) (fun h => ?_) fun hbrace => ?_
  · rw [tagSign?_eq_some (by decide) h]
    exact .bind (reads_simpleTag false _) fun _ d _ =>
      .andThen (reads_space d) (.bindExpect (by decide) fun e => reads_pure _ e)
  refine .ifConsume (by decide) (fun h => ?_) fun hand => ?_
  · rw [tagSign?_eq_some (by decide) h]
    exact reads_simpleTag false _
  refine .ifConsume (by decide) (fun h => ?_) fun hopen => ?_
  · rw [tagSign?_eq_some (by decide) h]
    exact .bind (reads_blockHead _) fun _ _ _ => reads_pure _ _
  refine .ifConsume (by decide) (fun h => ?_) fun hcaret => ?_
  · rw [tagSign?_eq_some (by decide) h]
    change Reads text _ (c.advance 1) ((c.advance 1).signedBody (some '^'))
    refine .andThen (reads_space _) (.ifAtTagEnd (fun hend => ?_) fun hend => ?_)
    · simp only [Cursor.signedBody, hend, if_true]
      exact reads_pure _ _
    · simp only [Cursor.signedBody, hend]
      exact .bind (reads_blockHead _) fun _ _ _ => reads_pure _ _
  refine .ifConsume (by decide) (fun h => ?_) fun hslash => ?_
  · rw [tagSign?_eq_some (by decide) h]
    exact .andThen (reads_space _) (.bind (reads_path _) fun _ _ _ => reads_pure _ _)
  refine .ifConsume (by decide) (fun h => ?_) fun hgreater => ?_
  · rw [tagSign?_eq_some (by decide) h]
    exact reads_insertion _
  have hsign : c.tagSign? = none := tagSign?_eq_none (by
    simp [Written.tagSigns, hbrace, hand, hopen, hcaret, hslash, hgreater])
  rw [hsign]
  refine .andThen (reads_space c) (.andThen (reads_atElse _) ?_)
  change Reads text _ _ (if c.skipSpace.atElse then _ else _)
  split
  next helse =>
    obtain ⟨rest, hrest⟩ := exists_of_follows (Bool.and_eq_true_iff.mp helse).1
    exact .andThen (reads_skip hrest (by decide)) (.andThen (reads_space _) (reads_elseTag _))
  next => exact reads_simpleTag true _

/-! Ends of tags. -/

/-- `m` reads a value and whether the text behind is to be trimmed, which it keeps. -/
abbrev Trims (text : List Char) (m : Scan α) (c : Cursor)
    (r : Except Fault ((α × Bool) × Cursor)) : Prop :=
  Follows text Prod.fst (fun p s => { s with trims := p.2 }) m c r

theorem trims_update (trims : Bool) (c : Cursor) :
    Trims text (update fun s => { s with trims }) c (.ok (((), trims), c)) :=
  fun _ _ hs => gives_update.mono fun _ _ ⟨hr, ht⟩ => ⟨hr, by rw [ht, ← hs], .refl c⟩

/-- A look at the text afterwards keeps whether the text is to be trimmed. -/
theorem Follows.thenLooks {m : Scan γ} {k : γ → Scan α} {r : Except Fault ((γ × Bool) × Cursor)}
    {f : γ → α} (h : Trims text m c r) (next : ∀ a d, Reads text (k a) d (.ok (f a, d))) :
    Trims text (m >>= k) c (r >>= fun ((a, trims), d) => .ok ((f a, trims), d)) := by
  intro hc s hs
  cases r with
  | error e =>
    refine (h hc s hs).bind (fun _ _ hok => nomatch hok.1) fun e t he => ?_
    obtain ⟨he, ht⟩ := he
    cases he
    exact ⟨rfl, ht⟩
  | ok p =>
    obtain ⟨⟨a, trims⟩, d⟩ := p
    refine (h hc s hs).bind (fun b t hb => ?_) fun _ _ he => nomatch he.1
    obtain ⟨hb, rfl, hd⟩ := hb
    cases hb
    exact (next a d (hc.trans hd) _ rfl).mono fun result t ht => ⟨ht.1, ht.2.1, hd⟩

theorem advance_toNat (c : Cursor) (skips : Bool) :
    c.advance skips.toNat = if skips then c.advance 1 else c := by
  cases skips <;> rfl

theorem trims_closingBraces (c : Cursor) :
    Trims text closingBraces c (c.closingBraces >>= fun (trims, d) => .ok (((), trims), d)) := by
  simp only [Cursor.closingBraces, bind_assoc, pure_bind, advance_toNat]
  exact .andThen (reads_space c) (.andThen (reads_consume (by decide) _)
    (.bindExpect (by decide) fun e => trims_update _ e))

theorem nearer?_map (n : Nat) (trimmed plain : Option Nat) :
    nearer? (trimmed.map (n + ·)) (plain.map (n + ·)) =
      (nearer? trimmed plain).map fun (length, trims) => (n + length, trims) := by
  cases trimmed <;> cases plain <;> simp [nearer?]
  split <;> rfl

/-- Where a comment ends, the nearer of the two ends of comments starts. -/
theorem nearer?_bytesBefore? (dashes s : List Char) :
    nearer? (bytesBefore? (dashes ++ ['~', '}', '}']) s) (bytesBefore? (dashes ++ ['}', '}']) s) =
      (comment? dashes s).map fun (text, trims, _) => (byteLength text, trims) := by
  induction s with
  | nil => simp [bytesBefore?, nearer?, comment?]
  | cons c s ih =>
    have hsize := c.utf8Size_pos
    simp only [bytesBefore?, comment?]
    by_cases htrimmed : (dashes ++ ['~', '}', '}']).isPrefixOf (c :: s)
    · rw [if_pos htrimmed, if_pos htrimmed]
      cases bytesBefore? (dashes ++ ['}', '}']) s <;> split <;> rfl
    · rw [if_neg htrimmed, if_neg htrimmed]
      by_cases hplain : (dashes ++ ['}', '}']).isPrefixOf (c :: s)
      · rw [if_pos hplain, if_pos hplain]
        cases bytesBefore? (dashes ++ ['~', '}', '}']) s with
        | none => rfl
        | some n =>
          rw [Option.map_some, nearer?, if_neg (by omega)]
          rfl
      · rw [if_neg hplain, if_neg hplain, nearer?_map, ih]
        cases comment? dashes s <;> rfl

theorem trims_comment (c : Cursor) : Trims text comment c c.commentTag := by
  obtain ⟨dashes, hdashes⟩ : ∃ dashes, (if c.follows ['-', '-'] then ['-', '-'] else []) = dashes :=
    ⟨_, rfl⟩
  obtain ⟨d, hd⟩ : ∃ d, c.advance dashes.length = d := ⟨_, rfl⟩
  have hconsume : Reads text (consume ['-', '-']) c (.ok (c.follows ['-', '-'], d)) := by
    have hread : Reads text (consume ['-', '-']) c _ := reads_consume (by decide) c
    rw [← hd, ← hdashes]
    cases h : c.follows ['-', '-'] with
    | true => rwa [h] at hread
    | false => rwa [h] at hread
  rw [Cursor.commentTag]
  refine .andThen hconsume ?_
  simp only [hdashes]
  refine .within fun hc => .andThen (reads_offset d) (.andThen (reads_ahead d) ?_)
  rw [nearer?_bytesBefore?]
  have hrest : c.rest.drop dashes.length = d.rest := by rw [← hd]; rfl
  have hlead : c.LeadsTo d := hd ▸ c.leadsTo_advance _
  rw [hrest]
  cases hcomment : comment? dashes d.rest with
  | none =>
    have hend : c.advance c.rest.length = d.advance d.rest.length := hlead.reach List.nil_suffix
    simp only [hend]
    exact .andThen (reads_stretch d.rest.append_nil.symm) (follows_fail _ _)
  | some p =>
    obtain ⟨shown, trims, rest⟩ := p
    obtain ⟨word, hword⟩ :
        ∃ word, dashes ++ (if trims then ['~', '}', '}'] else ['}', '}']) = word := ⟨_, rfl⟩
    have hsplit : d.rest = shown ++ (word ++ rest) := by
      rw [Cursor.comment?_text hcomment, ← hword]
      cases trims <;> simp
    have hsound : (Event.found (d.mark.offset + byteLength shown)).Sound text :=
      isBoundary_behind hc hsplit
    have hbehind : (d.advance shown.length).rest = word ++ rest := by
      rw [Cursor.rest_advance, hsplit, List.drop_left]
    have hstop : c.reach rest = (d.advance shown.length).advance word.length := by
      rw [hlead.reach ⟨shown ++ word, by rw [hsplit, List.append_assoc]⟩, Cursor.advance_advance,
        ← List.length_append]
      exact Cursor.reach_eq_advance (by rw [hsplit, List.append_assoc])
    have hline : '\n' ∉ word := by
      rw [← hword, ← hdashes]
      cases c.follows ['-', '-'] <;> cases trims <;> decide
    simp only [Option.map_some, hword, hstop]
    refine .andThen (reads_note hsound d) (.andThen (reads_stretch hsplit)
      (.andThen (reads_skip hbehind hline) ?_))
    exact (trims_update trims _).thenLooks
      (f := fun _ => TagBody.statement (.comment (String.ofList shown))) fun _ e =>
        .andThen (reads_cut_behind hc hsplit e) (reads_pure _ e)

theorem trims_tagBody (c : Cursor) : Trims text tagBody c c.tagBody := by
  refine .ifConsume (by decide) (fun h => ?_) fun h => ?_
  · rw [Cursor.tagBody, if_pos h]
    exact trims_comment _
  · rw [Cursor.tagBody, if_neg (by simp [h])]
    refine .bind (reads_signedBody c) fun body d _ => ?_
    have hclose : Trims text (closingBraces >>= fun _ => pure body) d _ :=
      (trims_closingBraces d).thenLooks fun _ e => reads_pure body e
    dsimp only
    cases hbraces : d.closingBraces <;> rw [hbraces] at hclose <;> exact hclose

theorem length_tagBody_lt {c e : Cursor} {p : TagBody × Bool} (h : c.tagBody = .ok (p, e)) :
    e.rest.length < c.rest.length := by
  obtain ⟨s, hs, -⟩ := Cursor.tagBody_text h
  rw [hs]
  simp only [List.length_append, List.length_cons]
  omega

end Scan
end Stencil
