import Stencil.Program
import Stencil.Source.Cursor

/-!
The words of a tag: quoted strings, numerals, and paths. Each reader stops at the first character
that is not part of its word, and a reader that succeeds has read at least one character.
-/
namespace Stencil

/-- The marks that end a path segment without brackets. -/
def nameStops : List Char :=
  ['!', '"', '#', '%', '&', '\'', '(', ')', '*', '+', ',', '.', '/', ';', '<', '=', '>', '@', '[',
    '\\', ']', '^', '\x60', '{', '|', '}', '~']

/-- Whether `c` may stand in a path segment without brackets. -/
def isNameChar (c : Char) : Bool := !isSpace c && !nameStops.contains c

/-- The string that ends at the next `quote`, and what follows it. A backslash takes a quote into
the string, and otherwise stands for itself. -/
def quotedString? (quote : Char) : List Char → Option (List Char × List Char)
  | [] => none
  | c :: rest =>
    if c = quote then some ([], rest)
    else
      match c, rest with
      | '\\', d :: more =>
        if d = quote then (quotedString? quote more).map fun r => (quote :: r.1, r.2)
        else (quotedString? quote (d :: more)).map fun r => ('\\' :: r.1, r.2)
      | c, rest => (quotedString? quote rest).map fun r => (c :: r.1, r.2)

/-- A numeral ends where white space, a brace, a tilde or a bracket follows, or nothing. -/
def endsNumeral : List Char → Bool
  | [] => true
  | c :: _ => isSpace c || c == '}' || c == '~' || c == ')'

/-- The numeral of a truth value whose word is `word`, and what follows it. -/
def truthWord? (word : List Char) (value : Int64) (text : List Char) :
    Option (Numeral × List Char) :=
  let rest := text.drop word.length
  if word.isPrefixOf text && endsNumeral rest then
    some (⟨.int value, true, String.ofList word⟩, rest)
  else none

/-- The fraction that follows the integer part of a numeral: a point and at least one digit. -/
def fractionDigits : List Char → List Char
  | '.' :: rest => rest.takeWhile Char.isDigit
  | _ => []

/-- The parts of a decimal numeral. -/
structure DecimalWord where
  negative : Bool
  whole : List Char
  fraction : List Char
  deriving DecidableEq, Repr, Inhabited

namespace DecimalWord

/-- The longest parts that a text starts with; without digits there is no numeral. -/
def ofText (text : List Char) : DecimalWord :=
  let negative := text.head? == some '-'
  let unsigned := text.drop negative.toNat
  let whole := unsigned.takeWhile Char.isDigit
  ⟨negative, whole, fractionDigits (unsigned.drop whole.length)⟩

/-- The numeral as written. -/
def text (w : DecimalWord) : List Char :=
  (if w.negative then ['-'] else []) ++ w.whole ++
    (if w.fraction.isEmpty then [] else '.' :: w.fraction)

/-- The value: an integer if there is no fraction and 64 bits hold it, else a double. -/
def value (w : DecimalWord) : Number :=
  let size := Decimal.valueOf (w.whole ++ w.fraction)
  let n : Int := if w.negative then -size else size
  if w.fraction.isEmpty ∧ Number.intRange n then .int (Int64.ofInt n)
  else .float (Decimal.mk w.negative size (-w.fraction.length)).toFloat

end DecimalWord

/-- The decimal numeral that a text starts with, where it is a whole word, and what follows it. -/
def decimalNumeral? (text : List Char) : Option (Numeral × List Char) :=
  let w := DecimalWord.ofText text
  let rest := text.drop w.text.length
  if !w.whole.isEmpty && endsNumeral rest then
    some (⟨w.value, false, String.ofList w.text⟩, rest)
  else none

/-- The numeral that the text starts with, where it is a whole word, and what follows it. -/
def numeral? (text : List Char) : Option (Numeral × List Char) :=
  truthWord? ['t', 'r', 'u', 'e'] 1 text <|> truthWord? ['f', 'a', 'l', 's', 'e'] 0 text <|>
    decimalNumeral? text

/-- The leading parent markers of a path: their number, whether segments must follow, and the text
after them. -/
structure Climb where
  count : Nat
  continues : Bool
  rest : List Char
  deriving DecidableEq, Repr, Inhabited

/-- One more marker in front. -/
def Climb.succ (climb : Climb) : Climb := { climb with count := climb.count + 1 }

/-- The parent markers that a path starts with. Segments must follow a separator, and must follow
where there is no marker. -/
def climb : List Char → Climb
  | '.' :: '.' :: '.' :: rest => (climb rest).succ
  | '.' :: '.' :: '/' :: rest => (climb rest).succ
  | '.' :: '.' :: rest => ⟨1, false, rest⟩
  | rest => ⟨0, true, rest⟩

theorem climb_length_le (text : List Char) : (climb text).rest.length ≤ text.length := by
  fun_induction climb text <;> simp_all [Climb.succ] <;> omega

theorem climb_length_lt {text : List Char} (h : (climb text).continues = false) :
    (climb text).rest.length < text.length := by
  fun_induction climb text <;> simp_all [Climb.succ] <;> omega

/-- A segment of a path, and whether it was written in brackets. -/
structure Segment where
  name : String
  bracketed : Bool
  deriving DecidableEq, Repr, Inhabited

/-- The step that a segment stands for where it does not name a private datum. -/
def Segment.step (s : Segment) : PathStep :=
  if !s.bracketed && s.name == "this" then .this else .field s.name

/-- The steps of the segments, the first of which names a private datum if `isPrivate`. -/
def segmentSteps (isPrivate : Bool) : List Segment → List PathStep
  | [] => []
  | s :: rest => (if isPrivate then .datum s.name else s.step) :: rest.map Segment.step

/-- Why no segment starts at a text. -/
def missingSegment : List Char → ParseFailure
  | [] => .expected "identifier"
  | c :: _ =>
    if c != '}' && c != '~' && !isSpace c then .invalidIdentifier c.toString
    else .expected "identifier"

namespace Cursor

/-- A path segment: a name, or any text in brackets. -/
def segment (c : Cursor) : Except Fault (Segment × Cursor) :=
  if c.follows ['['] then
    let inner := c.advance 1
    let name := inner.rest.takeWhile (· != ']')
    if name.length < inner.rest.length then
      .ok (⟨String.ofList name, true⟩, inner.advance (name.length + 1))
    else .error ((inner.advance name.length).fault (.endOfText (some "]")))
  else
    let name := c.rest.takeWhile isNameChar
    if name.isEmpty then .error (c.fault (missingSegment c.rest))
    else .ok (⟨String.ofList name, false⟩, c.advance name.length)

theorem length_segment_lt {c d : Cursor} {s : Segment} (h : c.segment = .ok (s, d)) :
    d.rest.length < c.rest.length := by
  simp only [segment] at h
  split at h
  next =>
    split at h
    next inside =>
      cases h
      simp only [rest_advance, List.length_drop] at inside ⊢
      omega
    next => cases h
  next =>
    split at h
    next => cases h
    next nonempty =>
      cases h
      have : 0 < (c.rest.takeWhile isNameChar).length := by
        rw [List.length_pos_iff]; simpa using nonempty
      have : (c.rest.takeWhile isNameChar).length ≤ c.rest.length :=
        (List.takeWhile_sublist _).length_le
      simp only [rest_advance, List.length_drop]
      omega

/-- The place after a separator of path segments. -/
def separator? (c : Cursor) : Option Cursor :=
  if c.follows ['.'] || c.follows ['/'] then some (c.advance 1) else none

theorem length_separator?_le {c d : Cursor} (h : c.separator? = some d) :
    d.rest.length ≤ c.rest.length := by
  simp only [separator?] at h
  split at h
  next => cases h; simp
  next => cases h

/-- Path segments with separators between them. -/
def segments (c : Cursor) : Except Fault (List Segment × Cursor) :=
  match hs : c.segment with
  | .error f => .error f
  | .ok (s, d) =>
    match hd : d.separator? with
    | none => .ok ([s], d)
    | some e =>
      have : e.rest.length < c.rest.length :=
        Nat.lt_of_le_of_lt (length_separator?_le hd) (length_segment_lt hs)
      match segments e with
      | .error f => .error f
      | .ok (rest, last) => .ok (s :: rest, last)
  termination_by c.rest.length

theorem length_segments_lt {c d : Cursor} {s : List Segment} (h : c.segments = .ok (s, d)) :
    d.rest.length < c.rest.length := by
  fun_induction segments c generalizing s d with
  | case1 => cases h
  | case2 c s e hs => cases h; exact length_segment_lt hs
  | case3 => cases h
  | case4 c s e hs f hf this rest last hl ih => cases h; exact Nat.lt_trans (ih hl) this

/-- The part of a path before its segments: the steps it stands for, whether segments must follow,
and the place after it. -/
structure PathHead where
  steps : List PathStep
  continues : Bool
  after : Cursor

/-- The part before the segments of the path that starts here. A lone point stands for the present
value, and only a slash continues it. -/
def pathHead (c : Cursor) (isPrivate : Bool) : PathHead :=
  let markers := climb c.rest
  let d := c.reach markers.rest
  if markers.continues && !isPrivate && markers.count == 0 && d.follows ['.'] then
    let e := d.advance 1
    if e.follows ['/'] then ⟨[.this], true, e.advance 1⟩ else ⟨[.this], false, e⟩
  else ⟨List.replicate markers.count .parent, markers.continues, d⟩

/-- The place after the mark of a private datum, if there is one. -/
def skipMark (c : Cursor) : Cursor := if c.follows ['@'] then c.advance 1 else c

/-- A path: an optional mark of a private datum, parent markers, then segments. -/
def path (c : Cursor) : Except Fault (Path × Cursor) :=
  let isPrivate := c.follows ['@']
  let head := c.skipMark.pathHead isPrivate
  if head.continues then
    match head.after.segments with
    | .error f => .error f
    | .ok (segments, d) =>
      .ok (⟨head.steps ++ segmentSteps isPrivate segments, String.ofList (c.textTo d)⟩, d)
  else if isPrivate then .error (head.after.fault (.expected "a private variable name"))
  else .ok (⟨head.steps, String.ofList (c.textTo head.after)⟩, head.after)

theorem length_pathHead_le (c : Cursor) (isPrivate : Bool) :
    (c.pathHead isPrivate).after.rest.length ≤ c.rest.length := by
  have le := climb_length_le c.rest
  have reached := length_reach le
  simp only [pathHead]
  split
  · split <;> simp only [rest_advance, List.length_drop] <;> omega
  · exact reached ▸ le

theorem length_pathHead_lt {c : Cursor} {isPrivate : Bool}
    (h : (c.pathHead isPrivate).continues = false) :
    (c.pathHead isPrivate).after.rest.length < c.rest.length := by
  have le := climb_length_le c.rest
  have reached := length_reach le
  simp only [pathHead] at h ⊢
  split
  next point =>
    have : 0 < (c.reach (climb c.rest).rest).rest.length := by
      simp only [Bool.and_eq_true, follows] at point
      exact List.length_pos_iff.2 fun e => by simp [e] at point
    split <;> simp only [rest_advance, List.length_drop] <;> omega
  next noPoint =>
    rw [if_neg noPoint] at h
    have := climb_length_lt h
    simpa [reached] using this

theorem length_skipMark_le (c : Cursor) : c.skipMark.rest.length ≤ c.rest.length := by
  simp only [skipMark]; split <;> simp

theorem length_path_lt {c d : Cursor} {p : Path} (h : c.path = .ok (p, d)) :
    d.rest.length < c.rest.length := by
  have start := c.length_skipMark_le
  have le := c.skipMark.length_pathHead_le (c.follows ['@'])
  simp only [path] at h
  split at h
  · split at h
    next => cases h
    next hs => cases h; have := length_segments_lt hs; omega
  next stops =>
    split at h
    next => cases h
    next => cases h; have := length_pathHead_lt (by simpa using stops); omega

/-- The string in quotes that starts here. -/
def quoted (c : Cursor) (quote : Char) : Except Fault (String × Cursor) :=
  match quotedString? quote (c.rest.drop 1) with
  | some (value, rest) => .ok (String.ofList value, c.reach rest)
  | none => .error ((c.advance c.rest.length).fault (.endOfText (some quote.toString)))

/-- An expression: a quoted string, a numeral, or a path. -/
def expression (c : Cursor) : Except Fault (Expression × Cursor) :=
  match c.rest with
  | [] => .error (c.fault (.endOfText (some "\x7d\x7d")))
  | first :: _ =>
    if first == '"' || first == '\'' then
      match c.quoted first with
      | .error f => .error f
      | .ok (text, d) => .ok (.string text, d)
    else
      match numeral? c.rest with
      | some (n, rest) => .ok (.numeral n, c.reach rest)
      | none =>
        match c.path with
        | .error f => .error f
        | .ok (p, d) => .ok (.path p, d)

theorem quotedString?_length_lt {quote : Char} {text value rest : List Char}
    (h : quotedString? quote text = some (value, rest)) : rest.length < text.length := by
  fun_induction quotedString? quote text generalizing value <;> simp_all <;> grind

theorem length_quoted_lt {c d : Cursor} {quote : Char} {text : String}
    (h : c.quoted quote = .ok (text, d)) : d.rest.length < c.rest.length := by
  simp only [quoted] at h
  split at h
  next hq =>
    cases h
    have := quotedString?_length_lt hq
    simp only [List.length_drop] at this
    rw [length_reach] <;> omega
  next => cases h

theorem truthWord?_length_lt {word text rest : List Char} {value : Int64} {n : Numeral}
    (h : truthWord? word value text = some (n, rest)) (nonempty : 0 < word.length) :
    rest.length < text.length := by
  simp only [truthWord?] at h
  split at h
  next found =>
    cases h
    have := length_of_isPrefixOf (Bool.and_eq_true_iff.1 found).1
    simp only [List.length_drop]
    omega
  next => cases h

theorem decimalNumeral?_length_lt {text rest : List Char} {n : Numeral}
    (h : decimalNumeral? text = some (n, rest)) : rest.length < text.length := by
  simp only [decimalNumeral?] at h
  split at h
  next found =>
    cases h
    have digits : 0 < (DecimalWord.ofText text).whole.length := by
      rw [List.length_pos_iff]; simpa using (Bool.and_eq_true_iff.1 found).1
    have short : (DecimalWord.ofText text).whole.length ≤ text.length := by
      exact Nat.le_trans (List.takeWhile_sublist _).length_le (by simp)
    have : (DecimalWord.ofText text).whole.length ≤ (DecimalWord.ofText text).text.length := by
      simp only [DecimalWord.text, List.length_append]; omega
    simp only [List.length_drop]
    omega
  next => cases h

theorem numeral?_length_lt {text rest : List Char} {n : Numeral}
    (h : numeral? text = some (n, rest)) : rest.length < text.length := by
  simp only [numeral?, Option.orElse_eq_orElse, Option.orElse_eq_or, Option.or_eq_some_iff] at h
  rcases h with h | ⟨_, h | ⟨_, h⟩⟩
  · exact truthWord?_length_lt h (by simp)
  · exact truthWord?_length_lt h (by simp)
  · exact decimalNumeral?_length_lt h

theorem length_expression_lt {c d : Cursor} {e : Expression} (h : c.expression = .ok (e, d)) :
    d.rest.length < c.rest.length := by
  simp only [expression] at h
  split at h
  next => cases h
  next =>
    split at h
    · split at h
      next => cases h
      next hq => cases h; exact length_quoted_lt hq
    · split at h
      next hn =>
        cases h
        have := numeral?_length_lt hn
        rw [length_reach] <;> omega
      next =>
        split at h
        next => cases h
        next hp => cases h; exact length_path_lt hp

end Cursor
end Stencil
