import Stencil.Source.Tag

/-!
Pieces: a template text as a flat list of raw texts and tags, and how the list ends. White space
control works on this list, where the neighbours of a raw text are the tags beside it.
-/
namespace Stencil

/-- A raw text or a tag. -/
inductive Piece where
  | raw (text : List Char)
  | tag (tag : Tag)
  deriving Inhabited

/-- The raw text up to the next tag or the end, and what follows it. A backslash before braces makes
them raw; two backslashes are one, and leave the tag after them as it is. -/
def rawText : List Char → List Char × List Char
  | [] => ([], [])
  | '\\' :: '\\' :: '{' :: '{' :: rest => (['\\'], '{' :: '{' :: rest)
  | '\\' :: '{' :: '{' :: rest => (rawText rest).map ('{' :: '{' :: ·) id
  | '{' :: '{' :: rest => ([], '{' :: '{' :: rest)
  | c :: rest => (rawText rest).map (c :: ·) id

theorem rawText_length_le (text : List Char) : (rawText text).2.length ≤ text.length := by
  fun_induction rawText text <;> simp_all <;> omega

theorem rawText_length_lt {text : List Char} (tag : ['{', '{'].isPrefixOf text = false)
    (nonempty : text ≠ []) : (rawText text).2.length < text.length := by
  fun_cases rawText text
  case case1 => contradiction
  case case2 => simp
  case case3 rest =>
    have := rawText_length_le rest
    simp only [Prod.map_snd, id, List.length_cons]
    omega
  case case4 => simp at tag
  case case5 c rest _ _ _ =>
    have := rawText_length_le rest
    simp only [Prod.map_snd, id, List.length_cons]
    omega

/-- How a list of pieces ends: at the end of the text, or at the first fault inside a tag. -/
abbrev Ending := Except Fault Mark

namespace Cursor

/-- The pieces from here on, and how they end. -/
def pieces (c : Cursor) : List Piece × Ending :=
  if atEnd : c.rest = [] then ([], .ok c.mark)
  else if tagged : c.follows ['{', '{'] then
    match h : c.tag with
    | .error f => ([], .error f)
    | .ok (t, d) =>
      have : d.rest.length < c.rest.length :=
        length_tag_lt h (length_of_isPrefixOf tagged)
      let r := d.pieces
      (.tag t :: r.1, r.2)
  else
    let raw := rawText c.rest
    have : (c.reach raw.2).rest.length < c.rest.length := by
      rw [length_reach (rawText_length_le _)]
      exact rawText_length_lt (Bool.eq_false_iff.2 tagged) atEnd
    let r := (c.reach raw.2).pieces
    (.raw raw.1 :: r.1, r.2)
  termination_by c.rest.length

end Cursor

/-- Whether the next piece is a tag that trims the text before it. -/
def trimsBefore : List Piece → Bool
  | .tag t :: _ => t.trimBefore
  | _ => false

/-- White space control: every raw text is trimmed on the sides where a tag asks for it, and left
out if nothing remains. `trim` says whether the piece before asks for it. -/
def trimPieces (trim : Bool) : List Piece → List Piece
  | [] => []
  | .raw text :: rest =>
    let text := if trim then trimStart text else text
    let text := if trimsBefore rest then trimEnd text else text
    if text.isEmpty then trimPieces false rest else .raw text :: trimPieces false rest
  | .tag t :: rest => .tag t :: trimPieces t.trimAfter rest

end Stencil
