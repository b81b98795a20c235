import Stencil.Source.Lexeme
import Stencil.Text.Alphanumeric

/-!
Tags: what stands between double braces. A tag is read in one go, from its opening braces to its
closing ones; how tags form blocks is not looked at here.
-/
namespace Stencil

/-- The head of a block or of a link of an else chain. -/
structure BlockHead where
  path : Path
  arguments : Arguments
  deriving BEq, Inhabited

/-- What a tag is. -/
inductive TagBody where
  | statement (statement : Statement)
  | opening (inverted : Bool) (head : BlockHead)
  /-- An else, with the head of the block that continues an else chain. -/
  | otherwise (chain : Option BlockHead)
  | closing (path : Path)
  deriving BEq, Inhabited

/-- A tag with the offset at which it starts and the place after it. A tilde inside the braces trims
the raw text on its side. -/
structure Tag where
  body : TagBody
  start : Nat
  stop : Mark
  trimBefore : Bool
  trimAfter : Bool
  deriving Inhabited

/-- How many positional parameters a tag takes, and what is missed where there is one too many. -/
structure ParamRule where
  most : Option Nat
  complaint : String

/-- Calls take any number of positional parameters, before the named ones. -/
def ParamRule.call : ParamRule :=
  ⟨none, "only named parameters after the first named parameter"⟩

/-- Insertions take one positional parameter, before the named ones: their context. -/
def ParamRule.insertion : ParamRule :=
  ⟨some 1, "named parameters after the partial context"⟩

/-- Whether a positional parameter may follow the arguments found so far. -/
def ParamRule.admits (rule : ParamRule) (found : Arguments) : Bool :=
  found.named.isEmpty && rule.most.all (found.positional.length < ·)

/-- The arguments with one more, which is named if `name?` is present. -/
def Arguments.add (found : Arguments) (name? : Option String) (e : Expression) : Arguments :=
  match name? with
  | some name => { found with named := found.named.insert name e }
  | none => { found with positional := found.positional ++ [e] }

/-- Whether `c` may stand in the name of a partial that is not quoted. -/
def isPartialNameChar (c : Char) : Bool :=
  isAlphanumeric c || c == '_' || c == '-' || c == '.' || c == '/'

/-- A comment up to the first pair of closing braces after `dashes`: its text, whether a tilde
stands before the braces, and what follows them. -/
def comment? (dashes : List Char) : List Char → Option (List Char × Bool × List Char)
  | [] => none
  | c :: rest =>
    let trimmed := dashes ++ ['~', '}', '}']
    let plain := dashes ++ ['}', '}']
    if trimmed.isPrefixOf (c :: rest) then some ([], true, (c :: rest).drop trimmed.length)
    else if plain.isPrefixOf (c :: rest) then some ([], false, (c :: rest).drop plain.length)
    else (comment? dashes rest).map fun r => (c :: r.1, r.2)

namespace Cursor

/-- Whether the closing braces of a tag follow. -/
def atTagEnd (c : Cursor) : Bool := c.follows ['}'] || c.follows ['~', '}']

/-- The closing braces of a tag, and whether a tilde stands before them. -/
def closingBraces (c : Cursor) : Except Fault (Bool × Cursor) := do
  let d := c.skipSpace
  let trim := d.follows ['~']
  let e ← (d.advance trim.toNat).expect ['}', '}']
  return (trim, e)

/-- The name of the named parameter that starts here, if one does. -/
def parameterName? (c : Cursor) : Option (List Char) :=
  let name := c.rest.takeWhile isNameChar
  if !name.isEmpty && (trimStart (c.rest.drop name.length)).head? == some '=' then some name
  else none

/-- The place after the name of a parameter and the equals sign. -/
def skipName (c : Cursor) (name : List Char) : Cursor :=
  ((c.advance name.length).skipSpace.advance 1).skipSpace

theorem length_skipName_le (c : Cursor) (name : List Char) :
    (c.skipName name).rest.length ≤ c.rest.length := by
  refine Nat.le_trans (length_skipSpace_le _) ?_
  have := length_skipSpace_le (c.advance name.length)
  simp only [rest_advance, List.length_drop] at this ⊢
  omega

/-- Arguments up to the closing braces, after those found before. -/
def arguments (c : Cursor) (rule : ParamRule) (found : Arguments) :
    Except Fault (Arguments × Cursor) :=
  let d := c.skipSpace
  if d.atTagEnd then .ok (found, d)
  else
    let name? := d.parameterName?
    if name?.isNone && !rule.admits found then .error (d.fault (.expected rule.complaint))
    else
      match h : (name?.elim d d.skipName).expression with
      | .error f => .error f
      | .ok (e, after) =>
        have : after.rest.length < c.rest.length := by
          have := length_expression_lt h
          have skipped : (name?.elim d d.skipName).rest.length ≤ d.rest.length := by
            cases name? with
            | none => exact Nat.le_refl _
            | some name => exact length_skipName_le d name
          have : d.rest.length ≤ c.rest.length := length_skipSpace_le c
          omega
        after.arguments rule (found.add (name?.map String.ofList) e)
  termination_by c.rest.length

/-- An expression with arguments. -/
def call (c : Cursor) : Except Fault ((Expression × Arguments) × Cursor) := do
  let (head, d) ← c.skipSpace.expression
  let (arguments, e) ← d.arguments .call {}
  return ((head, arguments), e)

/-- A tag that shows an expression or calls a helper. -/
def simpleTag (c : Cursor) (escaped : Bool) : Except Fault (TagBody × Cursor) := do
  let ((head, arguments), d) ← c.call
  return (.statement (.tag head arguments escaped), d)

/-- The head of a block, which must be a path. -/
def blockHead (c : Cursor) : Except Fault (BlockHead × Cursor) := do
  let d := c.skipSpace
  let ((head, arguments), e) ← d.call
  match head with
  | .path path => return (⟨path, arguments⟩, e)
  | _ => throw ⟨.earlier d.mark.offset, .expected "a block helper name"⟩

/-- The name of a partial, quoted or plain. -/
def partialName (c : Cursor) : Except Fault (String × Cursor) :=
  if c.follows ['"'] then c.quoted '"'
  else if c.follows ['\''] then c.quoted '\''
  else
    let name := c.rest.takeWhile isPartialNameChar
    if name.isEmpty then .error (c.fault (.expected "a partial name"))
    else .ok (String.ofList name, c.advance name.length)

/-- An insertion of a partial, after its sign. -/
def insertion (c : Cursor) : Except Fault (TagBody × Cursor) := do
  let (name, d) ← c.skipSpace.partialName
  let (arguments, e) ← d.arguments .insertion {}
  return (.statement (.insertion name arguments.positional.head? arguments.named), e)

/-- An else tag after its sign: plain, or with the head of a further block. -/
def elseTag (c : Cursor) : Except Fault (TagBody × Cursor) := do
  if c.atTagEnd then return (.otherwise none, c)
  else
    let (head, d) ← c.blockHead
    return (.otherwise (some head), d)

/-- Whether the word `else` follows. -/
def atElse (c : Cursor) : Bool :=
  c.follows ['e', 'l', 's', 'e'] && !((c.rest.drop 4).head?.any isNameChar)

/-- The part of a tag before its closing braces, after the sign of its kind. -/
def signedBody (c : Cursor) (sign : Option Char) : Except Fault (TagBody × Cursor) :=
  match sign with
  | some '{' => do
    let (body, d) ← c.simpleTag false
    let e ← d.skipSpace.expect ['}']
    return (body, e)
  | some '&' => c.simpleTag false
  | some '#' => do
    let (head, d) ← c.blockHead
    return (.opening false head, d)
  | some '^' => do
    let d := c.skipSpace
    if d.atTagEnd then return (.otherwise none, d)
    else
      let (head, e) ← d.blockHead
      return (.opening true head, e)
  | some '/' => do
    let (path, d) ← c.skipSpace.path
    return (.closing path, d)
  | some '>' => c.insertion
  | _ =>
    let d := c.skipSpace
    if d.atElse then (d.advance 4).skipSpace.elseTag else d.simpleTag true

/-- The sign of a kind of tag. -/
def tagSign? (c : Cursor) : Option Char :=
  c.rest.head?.filter ['{', '&', '#', '^', '/', '>'].contains

/-- A comment tag after its sign, with its closing braces. -/
def commentTag (c : Cursor) : Except Fault ((TagBody × Bool) × Cursor) :=
  let long := c.follows ['-', '-']
  let dashes := if long then ['-', '-'] else []
  match comment? dashes (c.rest.drop dashes.length) with
  | some (text, trim, rest) =>
    .ok ((.statement (.comment (String.ofList text)), trim), c.reach rest)
  | none => .error ((c.advance c.rest.length).fault
      (.endOfText (some (if long then "--\x7d\x7d" else "\x7d\x7d"))))

/-- A tag after its opening braces: what it is, and whether it trims the text after it. -/
def tagBody (c : Cursor) : Except Fault ((TagBody × Bool) × Cursor) := do
  if c.follows ['!'] then (c.advance 1).commentTag
  else
    let sign := c.tagSign?
    let (body, d) ← (c.advance sign.isSome.toNat).signedBody sign
    let (trim, e) ← d.closingBraces
    return ((body, trim), e)

/-- The tag that starts here with opening braces. -/
def tag (c : Cursor) : Except Fault (Tag × Cursor) := do
  let inner := c.advance 2
  let trimBefore := inner.follows ['~']
  let ((body, trimAfter), d) ← (inner.advance trimBefore.toNat).tagBody
  return (⟨body, c.mark.offset, d.mark, trimBefore, trimAfter⟩, d)

theorem shrinks_expression (c : Cursor) : c.Shrinks c.expression :=
  fun _ _ h => Nat.le_of_lt (length_expression_lt h)

theorem shrinks_path (c : Cursor) : c.Shrinks c.path :=
  fun _ _ h => Nat.le_of_lt (length_path_lt h)

theorem shrinks_arguments (c : Cursor) (rule : ParamRule) (found : Arguments) :
    c.Shrinks (c.arguments rule found) := by
  fun_induction arguments c rule found with
  | case1 c found d atEnd => exact shrinks_ok c.length_skipSpace_le
  | case2 => exact shrinks_error
  | case3 => exact shrinks_error
  | case4 c found d _ name? _ e after h this ih => exact ih.of_le (Nat.le_of_lt this)

theorem shrinks_call (c : Cursor) : c.Shrinks c.call :=
  .of_le c.length_skipSpace_le <| (shrinks_expression _).bind fun _ d =>
    (shrinks_arguments d _ _).bind fun _ _ => shrinks_ok (Nat.le_refl _)

theorem shrinks_simpleTag (c : Cursor) (escaped : Bool) : c.Shrinks (c.simpleTag escaped) :=
  c.shrinks_call.bind fun _ _ => shrinks_ok (Nat.le_refl _)

theorem shrinks_blockHead (c : Cursor) : c.Shrinks c.blockHead :=
  .of_le c.length_skipSpace_le <| (shrinks_call _).bind fun ⟨head, _⟩ _ => by
    cases head
    · exact shrinks_ok (Nat.le_refl _)
    · exact shrinks_error
    · exact shrinks_error

theorem shrinks_partialName (c : Cursor) : c.Shrinks c.partialName := by
  have quoted (q : Char) : c.Shrinks (c.quoted q) := fun _ _ h => Nat.le_of_lt (length_quoted_lt h)
  simp only [partialName]
  split
  · exact quoted _
  · split
    · exact quoted _
    · split
      · exact shrinks_error
      · exact shrinks_ok (c.length_advance_le _)

theorem shrinks_insertion (c : Cursor) : c.Shrinks c.insertion :=
  .of_le c.length_skipSpace_le <| (shrinks_partialName _).bind fun _ d =>
    (shrinks_arguments d _ _).bind fun _ _ => shrinks_ok (Nat.le_refl _)

theorem shrinks_elseTag (c : Cursor) : c.Shrinks c.elseTag := by
  simp only [elseTag]
  split
  · exact shrinks_ok (Nat.le_refl _)
  · exact c.shrinks_blockHead.bind fun _ _ => shrinks_ok (Nat.le_refl _)

theorem shrinks_signedBody (c : Cursor) (sign : Option Char) :
    c.Shrinks (c.signedBody sign) := by
  simp only [signedBody]
  split
  · refine (c.shrinks_simpleTag false).bind fun body d => ?_
    cases h : d.skipSpace.expect ['}'] with
    | error => exact shrinks_error
    | ok e => exact shrinks_ok (Nat.le_trans (length_expect_le h) d.length_skipSpace_le)
  · exact c.shrinks_simpleTag false
  · exact c.shrinks_blockHead.bind fun _ _ => shrinks_ok (Nat.le_refl _)
  · refine .of_le c.length_skipSpace_le ?_
    split
    · exact shrinks_ok (Nat.le_refl _)
    · exact (shrinks_blockHead _).bind fun _ _ => shrinks_ok (Nat.le_refl _)
  · exact .of_le c.length_skipSpace_le <|
      (shrinks_path _).bind fun _ _ => shrinks_ok (Nat.le_refl _)
  · exact c.shrinks_insertion
  · refine .of_le c.length_skipSpace_le ?_
    split
    · exact .of_le (Nat.le_trans (length_skipSpace_le _) (length_advance_le _ 4))
        (shrinks_elseTag _)
    · exact shrinks_simpleTag _ _

theorem comment?_length_le {dashes text body rest : List Char} {trim : Bool}
    (h : comment? dashes text = some (body, trim, rest)) : rest.length ≤ text.length := by
  fun_induction comment? dashes text generalizing body <;> simp_all <;> grind

theorem shrinks_commentTag (c : Cursor) : c.Shrinks c.commentTag := by
  simp only [commentTag]
  split
  next h =>
    have := comment?_length_le h
    simp only [List.length_drop] at this
    exact shrinks_ok (by rw [length_reach] <;> omega)
  next => exact shrinks_error

theorem shrinks_closingBraces (c : Cursor) : c.Shrinks c.closingBraces := by
  simp only [closingBraces]
  cases h : (c.skipSpace.advance (c.skipSpace.follows ['~']).toNat).expect ['}', '}'] with
  | error => exact shrinks_error
  | ok e =>
    exact shrinks_ok (Nat.le_trans (length_expect_le h)
      (Nat.le_trans (length_advance_le _ _) c.length_skipSpace_le))

theorem shrinks_tagBody (c : Cursor) : c.Shrinks c.tagBody := by
  simp only [tagBody]
  split
  · exact .of_le (c.length_advance_le 1) (shrinks_commentTag _)
  · exact .of_le (c.length_advance_le _) <| (shrinks_signedBody _ _).bind fun _ _ =>
      (shrinks_closingBraces _).bind fun _ _ => shrinks_ok (Nat.le_refl _)

theorem length_tag_lt {c d : Cursor} {t : Tag} (h : c.tag = .ok (t, d))
    (long : 2 ≤ c.rest.length) : d.rest.length < c.rest.length := by
  have inner : (c.advance 2).Shrinks c.tag :=
    .of_le (length_advance_le _ _) <| (shrinks_tagBody _).bind fun _ _ => shrinks_ok (Nat.le_refl _)
  have := inner t d h
  simp only [rest_advance, List.length_drop] at this
  omega

end Cursor
end Stencil
