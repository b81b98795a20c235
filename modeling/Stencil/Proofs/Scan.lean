import Stencil.Source.Block

/-!
Scans: a template text read by the offsets of its bytes. A scan knows where it is by an offset and
sees the text through cuts, which have no result where an end of the cut is out of range or inside
a character. It repeats itself in loops, and reads a block inside of a block, only so often as it
was granted; beyond that it has no result either. What it does is noted as events.
-/
namespace Stencil

namespace Scan

/-- The loops that read on. -/
inductive Loop where
  | space
  /-- Over a number of bytes that was found before. -/
  | stretch
  | raw
  | statements
  | call
  | insertion
  | parents
  | segments
  | string
  deriving DecidableEq, Repr

/-- What is noted when it was read. -/
inductive Part where
  | expression
  | path
  | tag
  deriving DecidableEq, Repr

/-- What a scan does.
* `moved`: the cursor comes to an offset.
* `found`: a search of the text ends at an offset.
* `cut`: the text between two offsets is looked at.
* `repeated`: a round of a loop after which there is another one, with the offsets before and after.
* `read`: a part was read, with the offsets before and after. -/
inductive Event where
  | moved (offset : Nat)
  | found (offset : Nat)
  | cut (start stop : Nat)
  | repeated (loop : Loop) (start stop : Nat)
  | read (part : Part) (start stop : Nat)
  deriving DecidableEq, Repr

/-- What a scan reads, and how many rounds each of its loops may take. -/
structure Context where
  text : List Char
  rounds : Nat

/-- The cursor, whether the next raw text is to be trimmed, and how many blocks are open. -/
structure State where
  mark : Mark := {}
  trims : Bool := false
  depth : Nat := 0
  deriving DecidableEq, Repr

/-- How a scan ended, the state it left, and its events in order. -/
structure Outcome (α : Type) where
  result : Except ParseError α
  state : State
  events : List Event

end Scan

/-- A scan, which may have no result at all. -/
def Scan (α : Type) : Type := Scan.Context → Scan.State → Option (Scan.Outcome α)

namespace Scan

variable {α β σ ρ : Type}

/-- A scan after another one, unless that fails. -/
protected def bind (m : Scan α) (f : α → Scan β) : Scan β := fun context s =>
  (m context s).bind fun first =>
    match first.result with
    | .ok a =>
      (f a context first.state).map fun second =>
        { second with events := first.events ++ second.events }
    | .error e => some ⟨.error e, first.state, first.events⟩

/-- Ends at once. -/
def ofExcept (r : Except ParseError α) : Scan α := fun _ s => some ⟨r, s, []⟩

instance : Monad Scan where
  pure a := ofExcept (.ok a)
  bind := Scan.bind

/-- Has no result. -/
def halt : Scan α := fun _ _ => none

def note (event : Event) : Scan Unit := fun _ s => some ⟨.ok (), s, [event]⟩

def context : Scan Context := fun context s => some ⟨.ok context, s, []⟩

def state : Scan State := fun _ s => some ⟨.ok s, s, []⟩

def update (f : State → State) : Scan Unit := fun _ s => some ⟨.ok (), f s, []⟩

/-- The result as a value, so that one can go on after a failure. -/
def attempt (m : Scan α) : Scan (Except ParseError α) := fun context s =>
  (m context s).map fun o => { o with result := .ok o.result }

/-- The difference of two offsets, which must not be negative. -/
def minus (a b : Nat) : Scan Nat := if b ≤ a then pure (a - b) else halt

/-! The text. -/

/-- What remains of a text after its first `n` bytes, which must be whole characters. -/
def dropBytes? : List Char → Nat → Option (List Char)
  | text, 0 => some text
  | [], _ + 1 => none
  | c :: rest, n + 1 => if c.utf8Size ≤ n + 1 then dropBytes? rest (n + 1 - c.utf8Size) else none

/-- The first `n` bytes of a text, which must be whole characters. -/
def takeBytes? : List Char → Nat → Option (List Char)
  | _, 0 => some []
  | [], _ + 1 => none
  | c :: rest, n + 1 =>
    if c.utf8Size ≤ n + 1 then (takeBytes? rest (n + 1 - c.utf8Size)).map (c :: ·) else none

/-- The text between two offsets. -/
def cut (start stop : Nat) : Scan (List Char) := do
  note (.cut start stop)
  let length ← minus stop start
  match (dropBytes? (← context).text start).bind (takeBytes? · length) with
  | some text => pure text
  | none => halt

/-- The text from an offset on. -/
def cutFrom (start : Nat) : Scan (List Char) := do
  cut start (byteLength (← context).text)

/-- The offset of the cursor. -/
def offset : Scan Nat := do
  return (← state).mark.offset

/-- The text from the cursor on. -/
def ahead : Scan (List Char) := do
  cutFrom (← offset)

/-- The bytes before the first `word` in a text. -/
def bytesBefore? (word : List Char) : List Char → Option Nat
  | [] => if word.isEmpty then some 0 else none
  | c :: rest =>
    if word.isPrefixOf (c :: rest) then some 0
    else (bytesBefore? word rest).map (c.utf8Size + ·)

/-- The bytes of the run of characters with `p` that starts `skipped` bytes behind the cursor. -/
def runLength (p : Char → Bool) (skipped : Nat) : Scan Nat := do
  let start := (← offset) + skipped
  let length := byteLength ((← cutFrom start).takeWhile p)
  note (.found (start + length))
  return length

/-! Loops. -/

/-- What a round of a loop comes to. -/
inductive Turn (σ ρ : Type) where
  | again (next : σ)
  | done (result : ρ)

/-- A loop of so many rounds at most. -/
def turns (body : σ → Scan (Turn σ ρ)) : Nat → σ → Scan ρ
  | 0, _ => halt
  | n + 1, a => do
    match ← body a with
    | .again b => turns body n b
    | .done r => pure r

/-- A loop of as many rounds as are granted. -/
def iterate (body : σ → Scan (Turn σ ρ)) (a : σ) : Scan ρ := do
  turns body (← context).rounds a

/-- A round of a loop that reads on. -/
def round (name : Loop) (body : σ → Scan (Turn σ ρ)) (a : σ) : Scan (Turn σ ρ) := do
  let start ← offset
  match ← body a with
  | .again b => do
    note (.repeated name start (← offset))
    return .again b
  | .done r => return .done r

/-- A loop that reads on. -/
def loop (name : Loop) (body : σ → Scan (Turn σ ρ)) (a : σ) : Scan ρ := iterate (round name body) a

/-- Notes what is read. -/
def reading (part : Part) (m : Scan α) : Scan α := do
  let start ← offset
  let a ← m
  note (.read part start (← offset))
  return a

/-! Errors. -/

/-- From an offset back to where a character starts. -/
def boundaryBefore : Nat → Scan Nat :=
  iterate fun o => do
    if (dropBytes? (← context).text o).isSome then return .done o
    else return .again (← minus o 1)

/-- From an offset on to where a character starts or the text ends. -/
def boundaryAfter : Nat → Scan Nat :=
  iterate fun o => do
    if (dropBytes? (← context).text o).isSome then return .done o
    else return .again (o + 1)

/-- The text around an offset. -/
def surroundings (position : Nat) : Scan String := do
  let start ← boundaryBefore (position - windowRadius)
  let stop ← boundaryAfter (min (position + windowRadius) (byteLength (← context).text))
  return String.ofList (← cut start stop)

/-- A failure at the cursor. -/
def fail (kind : ParseFailure) : Scan α := do
  let mark := (← state).mark
  let column := (← minus mark.offset mark.lineStart) + 1
  ofExcept (.error ⟨mark.line, column, mark.offset, ← surroundings mark.offset, kind⟩)

/-- A failure at an earlier offset, where line and column are counted anew. -/
def failAt (position : Nat) (kind : ParseFailure) : Scan α := do
  let before ← cut 0 position
  let lineStart := byteLength (before.reverse.dropWhile (· != '\n'))
  let column := (← minus position lineStart) + 1
  ofExcept (.error
    ⟨before.count '\n' + 1, column, position, ← surroundings position, kind⟩)

/-! Steps of the cursor. -/

def moveTo (mark : Mark) : Scan Unit := do
  update fun s => { s with mark }
  note (.moved mark.offset)

/-- Over the character that follows. -/
def advance (c : Char) : Scan Unit := do
  moveTo ((← state).mark.next c)

/-- Over a number of bytes without line breaks. -/
def skip (length : Nat) : Scan Unit := do
  let mark := (← state).mark
  moveTo { mark with offset := mark.offset + length }

def peekChar : Scan (Option Char) := do
  return (← ahead).head?

def peek (word : List Char) : Scan Bool := do
  return word.isPrefixOf (← ahead)

def atEnd : Scan Bool := do
  return byteLength (← context).text ≤ (← offset)

/-- Over a number of bytes of any text. -/
def stretch (length : Nat) : Scan Unit := do
  let stop := (← offset) + length
  loop .stretch (fun _ => do
    if (← offset) < stop then
      match ← peekChar with
      | some c => do
        advance c
        return .again ()
      | none => return .done ()
    else return .done ()) ()

/-- Over `word` if it follows. -/
def consume (word : List Char) : Scan Bool := do
  if ← peek word then
    skip (byteLength word)
    return true
  else return false

def expect (word : List Char) : Scan Unit := do
  if ← consume word then return ()
  else if ← atEnd then fail (.endOfText (some (String.ofList word)))
  else
    let found := (← ahead).take (byteLength word + 10)
    fail (.unexpectedToken ("'" ++ String.ofList word ++ "'") ("'" ++ String.ofList found ++ "'"))

def space : Scan Unit :=
  loop .space (fun _ => do
    match ← peekChar with
    | some c =>
      if isSpace c then
        advance c
        return .again ()
      else return .done ()
    | none => return .done ()) ()

/-! Words. -/

/-- Whether the character that follows, which is `c`, is a backslash before a quote. -/
def escapes (quote c : Char) : Scan Bool := do
  if c = '\\' then return [quote].isPrefixOf (← cutFrom ((← offset) + 1)) else return false

def string (quote : Char) : Scan String := do
  skip quote.utf8Size
  loop .string (fun value => do
    match ← peekChar with
    | none => fail (.endOfText (some quote.toString))
    | some c =>
      if ← escapes quote c then
        skip (1 + quote.utf8Size)
        return .again (value ++ [quote])
      else if c = quote then
        skip quote.utf8Size
        return .done (String.ofList value)
      else
        advance c
        return .again (value ++ [c])) []

def truthWord? (word : List Char) (value : Int64) : Scan (Option Numeral) := do
  if ← peek word then
    if endsNumeral (← cutFrom ((← offset) + byteLength word)) then
      skip (byteLength word)
      return some ⟨.int value, true, String.ofList word⟩
    else return none
  else return none

/-- The bytes of a fraction that starts `skipped` bytes behind the cursor. -/
def fractionLength (skipped : Nat) : Scan Nat := do
  if ['.'].isPrefixOf (← cutFrom ((← offset) + skipped)) then
    let digits ← runLength Char.isDigit (skipped + 1)
    return if digits = 0 then 0 else 1 + digits
  else return 0

def decimalNumeral? : Scan (Option Numeral) := do
  let sign := if ← peek ['-'] then 1 else 0
  let whole ← runLength Char.isDigit sign
  if whole = 0 then return none
  else
    let length := sign + whole + (← fractionLength (sign + whole))
    if endsNumeral (← cutFrom ((← offset) + length)) then
      let source ← cut (← offset) ((← offset) + length)
      skip length
      return some ⟨(DecimalWord.ofText source).value, false, String.ofList source⟩
    else return none

def numeral? : Scan (Option Numeral) := do
  match ← truthWord? ['t', 'r', 'u', 'e'] 1 with
  | some n => return some n
  | none =>
    match ← truthWord? ['f', 'a', 'l', 's', 'e'] 0 with
    | some n => return some n
    | none => decimalNumeral?

def separator : Scan Bool := do
  if ← consume ['.'] then return true else consume ['/']

def segment : Scan Segment := do
  if ← consume ['['] then
    let start ← offset
    let rest ← ahead
    match bytesBefore? [']'] rest with
    | none => do
      stretch (byteLength rest)
      fail (.endOfText (some "]"))
    | some length => do
      note (.found (start + length))
      stretch length
      skip 1
      return ⟨String.ofList (← cut start (start + length)), true⟩
  else
    let start ← offset
    let length ← runLength isNameChar 0
    if length = 0 then fail (missingSegment (← ahead))
    else
      skip length
      return ⟨String.ofList (← cut start (start + length)), false⟩

/-- The parent markers of a path, and whether segments must follow them. -/
def parents : Scan (List PathStep × Bool) :=
  loop .parents (fun steps => do
    if ← peek ['.', '.'] then
      skip 2
      if ← separator then return .again (steps ++ [.parent])
      else return .done (steps ++ [.parent], false)
    else return .done (steps, true)) []

/-- The part of a path before its segments, and whether these must follow. -/
def pathHead (isPrivate : Bool) : Scan (List PathStep × Bool) := do
  let (steps, continues) ← parents
  if continues && !isPrivate && steps.isEmpty then
    if ← peek ['.'] then
      skip 1
      return (steps ++ [.this], ← consume ['/'])
    else return (steps, continues)
  else return (steps, continues)

/-- Segments as long as they must follow, and whether a private datum has still to be named. -/
def segments (isPrivate : Bool) (steps : List PathStep) (continues : Bool) :
    Scan (List PathStep × Bool) :=
  loop .segments (fun (steps, isPrivate, continues) => do
    if continues then
      let s ← segment
      let step := if isPrivate then .datum s.name else s.step
      return .again (steps ++ [step], false, ← separator)
    else return .done (steps, isPrivate)) (steps, isPrivate, continues)

def path : Scan Path := reading .path do
  let start ← offset
  let isPrivate ← consume ['@']
  let (steps, continues) ← pathHead isPrivate
  let (steps, isPrivate) ← segments isPrivate steps continues
  if isPrivate then fail (.expected "a private variable name")
  else return ⟨steps, String.ofList (← cut start (← offset))⟩

def expression : Scan Expression := reading .expression do
  match ← peekChar with
  | none => fail (.endOfText (some "\x7d\x7d"))
  | some c =>
    if c == '"' || c == '\'' then return .string (← string c)
    else
      match ← numeral? with
      | some n => return .numeral n
      | none => return .path (← path)

/-! Tags. -/

/-- Whether the closing braces of a tag follow. -/
def atTagEnd : Scan Bool := do
  if ← peek ['}'] then return true else peek ['~', '}']

/-- Over the closing braces of a tag, before which a tilde trims the text behind them. -/
def closingBraces : Scan Unit := do
  space
  let trims ← consume ['~']
  expect ['}', '}']
  update fun s => { s with trims }

def parameterName? : Scan (Option (List Char)) := do
  let start ← offset
  let length ← runLength isNameChar 0
  if length = 0 then return none
  else if (trimStart (← cutFrom (start + length))).head? == some '=' then
    return some (← cut start (start + length))
  else return none

def namedValue (name : List Char) : Scan Expression := do
  skip (byteLength name)
  space
  expect ['=']
  space
  expression

def arguments (name : Loop) (rule : ParamRule) : Scan Arguments :=
  loop name (fun found => do
    space
    if ← atTagEnd then return .done found
    else
      match ← parameterName? with
      | some key => return .again (found.add (some (String.ofList key)) (← namedValue key))
      | none =>
        if rule.admits found then return .again (found.add none (← expression))
        else fail (.expected rule.complaint)) {}

def call : Scan (Expression × Arguments) := do
  space
  let head ← expression
  return (head, ← arguments .call .call)

def simpleTag (escaped : Bool) : Scan TagBody := do
  let (head, arguments) ← call
  return .statement (.tag head arguments escaped)

def blockHead : Scan BlockHead := do
  space
  let start ← offset
  let (head, arguments) ← call
  match head with
  | .path path => return ⟨path, arguments⟩
  | .string _ | .numeral _ => failAt start (.expected "a block helper name")

def partialName : Scan String := do
  match ← peekChar with
  | some '"' => string '"'
  | some '\'' => string '\''
  | _ =>
    let start ← offset
    let length ← runLength isPartialNameChar 0
    if length = 0 then fail (.expected "a partial name")
    else
      skip length
      return String.ofList (← cut start (start + length))

def insertion : Scan TagBody := do
  space
  let name ← partialName
  let arguments ← arguments .insertion .insertion
  return .statement (.insertion name arguments.positional.head? arguments.named)

/-- Whether the word `else` follows. -/
def atElse : Scan Bool := do
  if ← peek ['e', 'l', 's', 'e'] then
    return !((← ahead).drop 4).head?.any isNameChar
  else return false

/-- The part of a tag before its closing braces that is no comment. -/
def signedBody : Scan TagBody := do
  if ← consume ['{'] then
    let body ← simpleTag false
    space
    expect ['}']
    return body
  else if ← consume ['&'] then simpleTag false
  else if ← consume ['#'] then return .opening false (← blockHead)
  else if ← consume ['^'] then
    space
    if ← atTagEnd then return .otherwise none else return .opening true (← blockHead)
  else if ← consume ['/'] then
    space
    return .closing (← path)
  else if ← consume ['>'] then insertion
  else
    space
    if ← atElse then
      skip 4
      space
      if ← atTagEnd then return .otherwise none else return .otherwise (some (← blockHead))
    else simpleTag true

/-- The nearer of two places where a comment may end, and whether it is the one with a tilde. -/
def nearer? : Option Nat → Option Nat → Option (Nat × Bool)
  | some trimmed, some plain =>
    if trimmed ≤ plain then some (trimmed, true) else some (plain, false)
  | some trimmed, none => some (trimmed, true)
  | none, some plain => some (plain, false)
  | none, none => none

def comment : Scan TagBody := do
  let long ← consume ['-', '-']
  let dashes := if long then ['-', '-'] else []
  let start ← offset
  let rest ← ahead
  match nearer? (bytesBefore? (dashes ++ ['~', '}', '}']) rest)
      (bytesBefore? (dashes ++ ['}', '}']) rest) with
  | none => do
    stretch (byteLength rest)
    fail (.endOfText (some (if long then "--\x7d\x7d" else "\x7d\x7d")))
  | some (length, trims) => do
    note (.found (start + length))
    stretch length
    skip (byteLength (dashes ++ if trims then ['~', '}', '}'] else ['}', '}']))
    update fun s => { s with trims }
    return .statement (.comment (String.ofList (← cut start (start + length))))

/-- A tag after its opening braces. -/
def tagBody : Scan TagBody := do
  if ← consume ['!'] then comment
  else
    let body ← signedBody
    closingBraces
    return body

/-! Statements and blocks. -/

/-- What ends a run of statements, with the offset of its tag. -/
inductive Terminator where
  | endOfText
  | otherwise (chain : Option BlockHead) (start : Nat)
  | closing (path : Path) (start : Nat)

/-- What a tag comes to when the block that it opens is read with it. -/
inductive Read where
  | statement (statement : Statement)
  | otherwise (chain : Option BlockHead)
  | closing (path : Path)

/-- How the sections of a block are read that stands inside of others: from its head, the name that
ends it, and whether its sections are swapped. -/
abbrev Inner := BlockHead → String → Bool → Scan Statement

/-- The statements without the white space they end with. -/
def trimLast (program : Program) : Program :=
  match program.getLast? with
  | some (.raw text) =>
    let trimmed := trimEnd text.toList
    program.dropLast ++ if trimmed.isEmpty then [] else [.raw (String.ofList trimmed)]
  | _ => program

/-- A raw text as it stands, up to the next tag or the end. -/
def untrimmed : Scan (List Char) :=
  loop .raw (fun text => do
    match ← peekChar with
    | none => return .done text
    | some c =>
      if ← peek ['\\', '\\', '{', '{'] then
        skip 2
        return .done (text ++ ['\\'])
      else if ← peek ['\\', '{', '{'] then
        skip 3
        return .again (text ++ ['{', '{'])
      else if ← peek ['{', '{'] then return .done text
      else
        advance c
        return .again (text ++ [c])) []

def rawText : Scan (List Char) := do
  let text ← untrimmed
  let trims := (← state).trims
  update fun s => { s with trims := false }
  return if trims then trimStart text else text

/-- A tag after its opening braces, with the block that it opens. -/
def tag (inner : Inner) : Scan Read := reading .tag do
  match ← tagBody with
  | .statement s => return .statement s
  | .opening inverted head => return .statement (← inner head head.path.source inverted)
  | .otherwise chain => return .otherwise chain
  | .closing path => return .closing path

def statements (inner : Inner) : Scan (Program × Terminator) :=
  loop .statements (fun program => do
    if ← atEnd then return .done (program, .endOfText)
    else if ← peek ['{', '{'] then
      let start ← offset
      skip 2
      update fun s => { s with trims := false }
      let program := if ← consume ['~'] then trimLast program else program
      match ← tag inner with
      | .statement s => return .again (program ++ [s])
      | .otherwise chain => return .done (program, .otherwise chain start)
      | .closing path => return .done (program, .closing path start)
    else
      let text ← rawText
      return .again (if text.isEmpty then program else program ++ [.raw (String.ofList text)])) []

def unclosed (name : String) : Scan α :=
  fail (.endOfText (some ("\x7b\x7b/" ++ name ++ "\x7d\x7d")))

def checkName (name : String) (path : Path) (start : Nat) : Scan Unit :=
  if path.source = name then pure () else failAt start (.mismatchedClose name path.source)

/-- The second section of a block, after what ended the first. -/
def secondSection (inner : Inner) (name : String) : Terminator → Scan Program
  | .endOfText => unclosed name
  | .closing path start => do
    checkName name path start
    return []
  | .otherwise none _ => do
    let (second, terminator) ← statements inner
    match terminator with
    | .endOfText => unclosed name
    | .closing path start => do
      checkName name path start
      return second
    | .otherwise _ start =>
      failAt start (.message ("'" ++ name ++ "' already has an inverse section"))
  | .otherwise (some head) _ => do
    return [← inner head name false]

/-- The sections of a block, up to its closing tag. -/
def sections (inner : Inner) : Inner := fun head name inverted => do
  let (first, terminator) ← statements inner
  let second ← secondSection inner name terminator
  return if inverted then .block head.path head.arguments second first
    else .block head.path head.arguments first second

/-- Counts one more open block, if blocks may nest that deep. -/
def nested (inner : Inner) : Inner := fun head name inverted => do
  if maxBlockDepth ≤ (← state).depth then fail (.nestingTooDeep maxBlockDepth)
  else
    update fun s => { s with depth := s.depth + 1 }
    let result ← attempt (inner head name inverted)
    let depth ← minus (← state).depth 1
    update fun s => { s with depth }
    ofExcept result

/-- A block, in which blocks are read so many levels deep. -/
def block : Nat → Inner
  | 0 => nested fun _ _ _ => halt
  | levels + 1 => nested (sections (block levels))

def program (levels : Nat) : Scan Program := do
  let (program, terminator) ← statements (block levels)
  match terminator with
  | .endOfText => return program
  | .otherwise _ start => failAt start (.message "'else' outside of a block")
  | .closing path start =>
    failAt start (.message ("'\x7b\x7b/" ++ path.source ++ "\x7d\x7d' does not close any block"))

end Scan

/-- What a template text is read as and what is done for it, where no loop takes more than `rounds`
rounds and blocks are read no more than `levels` deep in one another. -/
def scan (rounds levels : Nat) (source : String) :
    Option (Except ParseError Program × List Scan.Event) :=
  (Scan.program levels ⟨source.toList, rounds⟩ {}).map fun o => (o.result, o.events)

end Stencil
