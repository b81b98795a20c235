import Stencil.Proofs.PathSource
import Stencil.Proofs.Pieces

/-!
The tags around the sections of a block, for any head that can be read. A head is read the same
behind every sign, and the name in a closing tag is read back from the source of its path.
-/
namespace Stencil

/-- A head of a block as it is written: before closing braces it is read to its end. -/
structure HeadText where
  text : String
  head : BlockHead
  reads : ∃ d, (Cursor.start (text.toList ++ ['}', '}'])).blockHead = .ok (head, d) ∧
    d.rest = ['}', '}']

/-- The piece of a tag that trims nothing. -/
def plainPiece (body : TagBody) : Tag := ⟨body, 0, {}, false, false⟩

/-- The text of a whole tag that trims nothing. -/
def PlainTag (text : List Char) (body : TagBody) : Prop := IsTag text [] (plainPiece body)

theorem plainTag_of_readAs {text : List Char} {body : TagBody} (h : Written.ReadAs text body)
    (hopen : ['{', '{'] <+: text) : PlainTag text body :=
  ⟨hopen, fun m tail => ⟨_, _, h m ([] ++ tail), rfl, rfl⟩⟩

namespace Cursor

theorem stops_skipSpace (c : Cursor) : Stops isSpace c.skipSpace.rest := by
  rw [skipSpace, rest_advance, drop_length_takeWhile]
  exact stops_dropWhile isSpace c.rest

theorem skipSpace_skipSpace (c : Cursor) : c.skipSpace.skipSpace = c.skipSpace :=
  skipSpace_stop _ c.stops_skipSpace _

theorem blockHead_skipSpace (c : Cursor) : c.skipSpace.blockHead = c.blockHead := by
  rw [blockHead, blockHead, skipSpace_skipSpace]

theorem segments_error {c : Cursor} {f : Fault} (h : c.segment = .error f) :
    c.segments = .error f := by
  rw [segments_eq, h]
  rfl

/-- No path starts where a tag ends. -/
theorem path_atTagEnd {c : Cursor} (h : c.atTagEnd) : ∃ f, c.path = .error f := by
  obtain ⟨m, s⟩ := c
  obtain ⟨first, rest, rfl, hfirst⟩ : ∃ first rest, s = first :: rest ∧ first ∈ ['}', '~'] := by
    rcases Bool.or_eq_true_iff.mp h with h | h <;>
      obtain ⟨rest, rfl⟩ := List.isPrefixOf_iff_prefix.mp h <;> simp
  have hfollows (mark : Char) (hmark : mark ∉ ['}', '~']) :
      (Cursor.mk m (first :: rest)).follows [mark] = false :=
    follows_singleton_eq_false fun more hmore => hmark (by cases hmore; exact hfirst)
  have hname : isNameChar first = false := by
    have : ['}', '~'].all fun c => !isNameChar c := by decide
    simpa using List.all_eq_true.mp this first hfirst
  have hreach := reach_append m [] (first :: rest)
  rw [List.nil_append, Mark.past_nil] at hreach
  have hclimb : climb (first :: rest) = ⟨0, true, first :: rest⟩ :=
    climb_stop fun hdot => by cases hdot; simp at hfirst
  have hsegment : (Cursor.mk m (first :: rest)).segment =
      .error ((Cursor.mk m (first :: rest)).fault (missingSegment (first :: rest))) := by
    rw [segment, hfollows '[' (by decide)]
    simp [hname]
  simp only [path, skipMark, pathHead, hfollows '@' (by decide), hfollows '.' (by decide), hclimb,
    hreach, Bool.and_false, Bool.false_eq_true, if_false, if_true, segments_error hsegment]
  exact ⟨_, rfl⟩

/-- What stands first in the head of a block is a path. -/
theorem exists_path_of_blockHead {c d : Cursor} {head : BlockHead}
    (h : c.blockHead = .ok (head, d)) : ∃ e, c.skipSpace.path = .ok (head.path, e) := by
  obtain ⟨⟨⟨first, arguments⟩, e⟩, hcall, h⟩ := exists_of_bind h
  obtain ⟨⟨first', e'⟩, hfirst, hcall⟩ := exists_of_bind hcall
  obtain ⟨⟨arguments', e''⟩, harguments, hcall⟩ := exists_of_bind hcall
  cases hcall
  rw [skipSpace_skipSpace, expression] at hfirst
  cases first with
  | string | numeral => cases h
  | path path =>
    cases h
    split at hfirst
    · cases hfirst
    · split at hfirst
      · split at hfirst <;> cases hfirst
      · split at hfirst
        · cases hfirst
        · split at hfirst
          next => cases hfirst
          next hpath => cases hfirst; exact ⟨_, hpath⟩

theorem atTagEnd_of_blockHead {c d : Cursor} {head : BlockHead}
    (h : c.blockHead = .ok (head, d)) : c.skipSpace.atTagEnd = false := by
  obtain ⟨e, hpath⟩ := exists_path_of_blockHead h
  rw [Bool.eq_false_iff]
  intro hend
  obtain ⟨f, hf⟩ := path_atTagEnd hend
  rw [hpath] at hf
  cases hf

end Cursor

namespace HeadText

/-- Every call of a path that can be written is a head. -/
def ofCall {path : Path} {arguments : Arguments} (text : String)
    (h : Written.CallText (.path path) arguments text.toList) (hpath : Written.WritablePath path)
    (hargs : Written.WritableArguments arguments) : HeadText where
  text := text
  head := ⟨path, arguments⟩
  reads := ⟨_, Written.blockHead_text h hpath hargs (TagEnd.brace ['}']) {}, rfl⟩

/-- The head is read to its end before any closing braces. -/
theorem blockHead_text (h : HeadText) (m : Mark) (tail : List Char) :
    (Cursor.mk m (h.text.toList ++ '}' :: '}' :: tail)).blockHead =
      .ok (h.head, ⟨m.past h.text.toList, '}' :: '}' :: tail⟩) := by
  obtain ⟨d, hd, hrest⟩ := h.reads
  have hswaps : (Cursor.start (h.text.toList ++ ['}', '}'])).Swaps ['}', '}'] ('}' :: '}' :: tail)
      ⟨m, h.text.toList ++ '}' :: '}' :: tail⟩ :=
    ⟨⟨_, rfl⟩, .brace _, h.text.toList, rfl, rfl, fun _ => ⟨_, rfl⟩⟩
  obtain ⟨⟨n, rest⟩, hread, hrest'⟩ :=
    Cursor.carries_blockHead hswaps h.head d hd (hrest ▸ List.suffix_rfl)
  obtain ⟨s, hs, hs', -⟩ := hrest'.shared
  obtain rfl : s = [] := by simpa [hrest] using hs
  obtain rfl : rest = '}' :: '}' :: tail := hs'
  obtain ⟨text, htext, hmark⟩ := ((Cursor.tracks_blockHead _).leadsTo _ _ hread)
  obtain rfl : h.text.toList = text := List.append_cancel_right htext
  obtain rfl : n = m.past h.text.toList := hmark
  exact hread

def opening (h : HeadText) : String := "\x7b\x7b#" ++ h.text ++ "\x7d\x7d"

/-- The tag that opens a block with its inverse section first. -/
def inverted (h : HeadText) : String := "\x7b\x7b^" ++ h.text ++ "\x7d\x7d"

/-- The tag that ends a section and begins another block in the inverse section. -/
def chained (h : HeadText) : String := "\x7b\x7belse " ++ h.text ++ "\x7d\x7d"

def closing (h : HeadText) : String := "\x7b\x7b/" ++ h.head.path.source ++ "\x7d\x7d"

theorem readAs_opening (h : HeadText) :
    Written.ReadAs h.opening.toList (.opening false h.head) := by
  intro m t
  have hread (n : Mark) : (Cursor.mk n (h.text.toList ++ ([] ++ '}' :: '}' :: t))).signedBody '#' =
      .ok (.opening false h.head, ⟨n.past h.text.toList, [] ++ '}' :: '}' :: t⟩) := by
    simp [Cursor.signedBody, h.blockHead_text, bind, Except.bind, pure, Except.pure]
  simpa [opening] using
    Written.tag_signed '#' (by simp [Written.tagSigns]) (by simp) Blank.nil hread m

theorem readAs_inverted (h : HeadText) :
    Written.ReadAs h.inverted.toList (.opening true h.head) := by
  intro m t
  have hread (n : Mark) : (Cursor.mk n (h.text.toList ++ ([] ++ '}' :: '}' :: t))).signedBody '^' =
      .ok (.opening true h.head, ⟨n.past h.text.toList, [] ++ '}' :: '}' :: t⟩) := by
    have hhead := h.blockHead_text n t
    simp only [List.nil_append, Cursor.signedBody, Cursor.atTagEnd_of_blockHead hhead,
      Cursor.blockHead_skipSpace, hhead]
    simp [bind, Except.bind, pure, Except.pure]
  simpa [inverted] using
    Written.tag_signed '^' (by simp [Written.tagSigns]) (by simp) Blank.nil hread m

theorem readAs_chained (h : HeadText) :
    Written.ReadAs h.chained.toList (.otherwise (some h.head)) := by
  intro m t
  have hread (n : Mark) : (Cursor.mk n (['e', 'l', 's', 'e', ' '] ++ h.text.toList ++
      ([] ++ '}' :: '}' :: t))).signedBody none =
      .ok (.otherwise (some h.head),
        ⟨n.past (['e', 'l', 's', 'e', ' '] ++ h.text.toList), [] ++ '}' :: '}' :: t⟩) := by
    have hhead := h.blockHead_text ((n.past ['e', 'l', 's', 'e']).next ' ') t
    have hstay := Cursor.skipSpace_stop
      (['e', 'l', 's', 'e'] ++ ' ' :: (h.text.toList ++ '}' :: '}' :: t))
      (stops_cons.mpr (by decide)) n
    have helse : (Cursor.mk n (['e', 'l', 's', 'e'] ++
        ' ' :: (h.text.toList ++ '}' :: '}' :: t))).atElse = true := by
      rw [Cursor.atElse, Cursor.follows_append]
      rfl
    have hword := Cursor.advance_append n ['e', 'l', 's', 'e']
      (' ' :: (h.text.toList ++ '}' :: '}' :: t))
    have hspace := Cursor.skipSpace_cons (show isSpace ' ' by decide) (n.past ['e', 'l', 's', 'e'])
      (h.text.toList ++ '}' :: '}' :: t)
    have htext : ['e', 'l', 's', 'e', ' '] ++ h.text.toList ++ ([] ++ '}' :: '}' :: t) =
        ['e', 'l', 's', 'e'] ++ ' ' :: (h.text.toList ++ '}' :: '}' :: t) := by simp
    simp only [List.length_cons, List.length_nil, Nat.reduceAdd] at hword
    rw [htext]
    simp only [Cursor.signedBody, hstay, helse, if_true, hword, hspace, Cursor.elseTag,
      Cursor.atTagEnd_of_blockHead hhead, Cursor.blockHead_skipSpace, hhead]
    simp [bind, Except.bind, pure, Except.pure]
  simpa [chained] using
    Written.tag_signed none (by simp) (fun _ => by simp [Written.tagSigns]) Blank.nil hread m

theorem readAs_closing (h : HeadText) :
    Written.ReadAs h.closing.toList (.closing h.head.path) := by
  intro m t
  obtain ⟨d, hd, -⟩ := h.reads
  obtain ⟨e, hpath⟩ := Cursor.exists_path_of_blockHead hd
  obtain ⟨word, hword, hsource, -⟩ := Cursor.exists_pathText hpath
  have hread (n : Mark) : (Cursor.mk n (h.head.path.source.toList ++
      ([] ++ '}' :: '}' :: t))).signedBody '/' =
      .ok (.closing h.head.path,
        ⟨n.past h.head.path.source.toList, [] ++ '}' :: '}' :: t⟩) := by
    have hname := Cursor.path_of_source hpath n ('}' :: t)
    have hstop : Stops isSpace (h.head.path.source.toList ++ '}' :: '}' :: t) := by
      have hfirst := Cursor.stops_skipSpace (Cursor.start (h.text.toList ++ ['}', '}']))
      rw [hword] at hfirst
      rw [hsource, String.toList_ofList]
      cases word with
      | nil => exact stops_cons.mpr (by decide)
      | cons first word => exact stops_cons.mpr (stops_cons.mp hfirst)
    simp [Cursor.signedBody, Cursor.skipSpace_stop _ hstop, hname, bind, Except.bind, pure,
      Except.pure]
  simpa [closing] using
    Written.tag_signed '/' (by simp [Written.tagSigns]) (by simp) Blank.nil hread m

theorem plainTag_opening (h : HeadText) : PlainTag h.opening.toList (.opening false h.head) :=
  plainTag_of_readAs h.readAs_opening (by simp [opening])

theorem plainTag_inverted (h : HeadText) : PlainTag h.inverted.toList (.opening true h.head) :=
  plainTag_of_readAs h.readAs_inverted (by simp [inverted])

theorem plainTag_chained (h : HeadText) : PlainTag h.chained.toList (.otherwise (some h.head)) :=
  plainTag_of_readAs h.readAs_chained (by simp [chained])

theorem plainTag_closing (h : HeadText) : PlainTag h.closing.toList (.closing h.head.path) :=
  plainTag_of_readAs h.readAs_closing (by simp [closing])

end HeadText

/-- The ways to write the tag between the sections of a block. -/
inductive ElseSign where
  | word
  | caret
  deriving DecidableEq, Repr, Inhabited

namespace ElseSign

def text : ElseSign → String
  | word => "\x7b\x7belse\x7d\x7d"
  | caret => "\x7b\x7b^\x7d\x7d"

theorem readAs_text (sign : ElseSign) : Written.ReadAs sign.text.toList (.otherwise none) := by
  cases sign with
  | word => simpa [text] using Written.readAs_otherwise Blank.nil Blank.nil
  | caret =>
    intro m t
    have hread (n : Mark) : (Cursor.mk n ([] ++ ([] ++ '}' :: '}' :: t))).signedBody '^' =
        .ok (.otherwise none, ⟨n.past [], [] ++ '}' :: '}' :: t⟩) := by
      have hstay := Cursor.skipSpace_stop ('}' :: '}' :: t) (stops_cons.mpr (by decide)) n
      have hend : (Cursor.mk n ('}' :: '}' :: t)).atTagEnd = true := by
        rw [Cursor.atTagEnd, Cursor.follows_cons, Bool.true_or]
      simp only [List.nil_append, Cursor.signedBody, hstay, hend, if_true]
      rfl
    simpa [text] using
      Written.tag_signed '^' (by simp [Written.tagSigns]) (by simp) Blank.nil hread m

theorem plainTag_text (sign : ElseSign) : PlainTag sign.text.toList (.otherwise none) := by
  refine plainTag_of_readAs sign.readAs_text ?_
  cases sign <;> simp [text]

end ElseSign
end Stencil
