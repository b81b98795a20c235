import Stencil.Error
import Stencil.Text.Space

/-!
Places in a template text. A cursor carries the text still to be read and the mark of its place,
which every step brings up to date; a place that was left behind is located again from the text.
-/
namespace Stencil

/-- A place in a text: the bytes before it, its line from one on, and where that line starts. -/
structure Mark where
  offset : Nat := 0
  line : Nat := 1
  lineStart : Nat := 0
  deriving DecidableEq, Repr, Inhabited

namespace Mark

/-- The place after the character `c`. -/
def next (m : Mark) (c : Char) : Mark :=
  let offset := m.offset + c.utf8Size
  if c = '\n' then ⟨offset, m.line + 1, offset⟩ else ⟨offset, m.line, m.lineStart⟩

/-- The place after `text`. -/
def past (m : Mark) (text : List Char) : Mark := text.foldl next m

/-- The column of a place in bytes, from one on. -/
def column (m : Mark) : Nat := m.offset - m.lineStart + 1

@[simp] theorem past_nil (m : Mark) : m.past [] = m := rfl

@[simp] theorem past_cons (m : Mark) (c : Char) (text : List Char) :
    m.past (c :: text) = (m.next c).past text := rfl

@[simp] theorem past_append (m : Mark) (s t : List Char) : m.past (s ++ t) = (m.past s).past t := by
  simp [past]

end Mark

/-- The bytes of a text. -/
def byteLength : List Char → Nat
  | [] => 0
  | c :: rest => c.utf8Size + byteLength rest

/-- The characters that start before `offset`. -/
def charsBefore : List Char → Nat → List Char
  | [], _ => []
  | c :: rest, offset => if offset = 0 then [] else c :: charsBefore rest (offset - c.utf8Size)

/-- The characters that end after `offset`. -/
def charsFrom : List Char → Nat → List Char
  | [], _ => []
  | c :: rest, offset =>
    if c.utf8Size ≤ offset then charsFrom rest (offset - c.utf8Size) else c :: rest

/-- The place `offset` bytes into `text`, found by counting the newlines before it. -/
def Mark.locate (text : List Char) (offset : Nat) : Mark :=
  let before := charsBefore text offset
  { offset
    line := before.count '\n' + 1
    lineStart := offset - byteLength (before.reverse.takeWhile (· != '\n')) }

/-- How many bytes around a place belong to its window. -/
def windowRadius : Nat := 16

/-- The text around the place `offset`, as far as the radius and on to whole characters. -/
def window (text : List Char) (offset : Nat) : String :=
  String.ofList (charsFrom (charsBefore text (offset + windowRadius)) (offset - windowRadius))

/-- Where a text is at fault: at the place of the cursor, or at an earlier offset. -/
inductive Place where
  | here (mark : Mark)
  | earlier (offset : Nat)
  deriving DecidableEq, Repr, Inhabited

/-- A text at fault. -/
structure Fault where
  place : Place
  kind : ParseFailure
  deriving DecidableEq, Repr, Inhabited

def Place.mark (text : List Char) : Place → Mark
  | .here mark => mark
  | .earlier offset => Mark.locate text offset

/-- The error of a fault in `text`. -/
def Fault.error (text : List Char) (fault : Fault) : ParseError :=
  let mark := fault.place.mark text
  { line := mark.line
    column := mark.column
    position := mark.offset
    context := window text mark.offset
    kind := fault.kind }

/-- A place in a text, with the text that follows it. -/
structure Cursor where
  mark : Mark
  rest : List Char
  deriving DecidableEq, Repr, Inhabited

namespace Cursor

/-- The start of `text`. -/
def start (text : List Char) : Cursor := ⟨{}, text⟩

/-- The place after the next `n` characters, or the end. -/
def advance (c : Cursor) (n : Nat) : Cursor := ⟨c.mark.past (c.rest.take n), c.rest.drop n⟩

/-- The place where `rest` remains, for a `rest` that ends the text of the cursor. -/
def reach (c : Cursor) (rest : List Char) : Cursor := c.advance (c.rest.length - rest.length)

/-- The text between two places. -/
def textTo (c d : Cursor) : List Char := c.rest.take (c.rest.length - d.rest.length)

/-- The place after the white space that follows. -/
def skipSpace (c : Cursor) : Cursor := c.advance (c.rest.takeWhile isSpace).length

/-- A fault at this place. -/
def fault (c : Cursor) (kind : ParseFailure) : Fault := ⟨.here c.mark, kind⟩

/-- Whether `text` follows. -/
def follows (c : Cursor) (text : List Char) : Bool := text.isPrefixOf c.rest

/-- The place after `text`, which must follow. -/
def expect (c : Cursor) (text : List Char) : Except Fault Cursor :=
  if c.follows text then .ok (c.advance text.length)
  else if c.rest.isEmpty then .error (c.fault (.endOfText (some (String.ofList text))))
  else .error (c.fault (.unexpectedToken ("'" ++ String.ofList text ++ "'")
    ("'" ++ String.ofList (c.rest.take (text.length + 10)) ++ "'")))

theorem length_of_isPrefixOf {s t : List Char} (h : s.isPrefixOf t) : s.length ≤ t.length :=
  ( List.isPrefixOf_iff_prefix.1 h).length_le

@[simp] theorem rest_advance (c : Cursor) (n : Nat) : (c.advance n).rest = c.rest.drop n := rfl

/-- A reader that gives no text back: where it succeeds, no more remains than it started with. -/
def Shrinks {α : Type} (c : Cursor) (r : Except Fault (α × Cursor)) : Prop :=
  ∀ a d, r = .ok (a, d) → d.rest.length ≤ c.rest.length

theorem Shrinks.bind {α β : Type} {c : Cursor} {r : Except Fault (α × Cursor)}
    {f : α × Cursor → Except Fault (β × Cursor)} (h : c.Shrinks r)
    (next : ∀ (a : α) (d : Cursor), d.Shrinks (f (a, d))) : c.Shrinks (r >>= f) := by
  intro b e hb
  cases r with
  | error => cases hb
  | ok p => exact Nat.le_trans (next p.1 p.2 b e hb) (h p.1 p.2 rfl)

theorem Shrinks.of_le {α : Type} {c d : Cursor} {r : Except Fault (α × Cursor)}
    (le : d.rest.length ≤ c.rest.length) (h : d.Shrinks r) : c.Shrinks r :=
  fun a e he => Nat.le_trans (h a e he) le

theorem shrinks_ok {α : Type} {c d : Cursor} {a : α} (le : d.rest.length ≤ c.rest.length) :
    c.Shrinks (.ok (a, d)) := by
  intro b e h; cases h; exact le

theorem shrinks_error {α : Type} {c : Cursor} {f : Fault} :
    c.Shrinks (.error f : Except Fault (α × Cursor)) := nofun

theorem length_advance_le (c : Cursor) (n : Nat) :
    (c.advance n).rest.length ≤ c.rest.length := by simp

theorem length_expect_le {c d : Cursor} {text : List Char} (h : c.expect text = .ok d) :
    d.rest.length ≤ c.rest.length := by
  simp only [expect] at h
  split at h
  · cases h; simp
  · split at h <;> cases h

theorem length_skipSpace_le (c : Cursor) : c.skipSpace.rest.length ≤ c.rest.length := by
  simp [skipSpace]

theorem length_reach {c : Cursor} {rest : List Char} (h : rest.length ≤ c.rest.length) :
    (c.reach rest).rest.length = rest.length := by
  simp only [reach, rest_advance, List.length_drop]
  omega

end Cursor
end Stencil
