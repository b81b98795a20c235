import Stencil.Source.Block

/-!
How programs are written. The grammar of template texts is a relation between a program and a text:
white space, the form of an unescaped tag and an else before an empty section are free, and all
else is determined. Not every program has a text of its own; those that have are `Writable`.
-/
namespace Stencil

/-- A run of white space, possibly empty. -/
def Blank (text : List Char) : Prop := ∀ c ∈ text, isSpace c

/-- White space between two words. -/
def Gap (text : List Char) : Prop := text ≠ [] ∧ Blank text

namespace Written

/-! The words of a tag. -/

/-- A text inside quotes: every quote in it stands after a backslash. -/
def encodeQuote (quote : Char) (text : List Char) : List Char :=
  text.flatMap fun c => if c = quote then ['\\', quote] else [c]

def stringText (s : String) : List Char := '"' :: encodeQuote '"' s.toList ++ ['"']

def stepText : PathStep → List Char
  | .this => ['t', 'h', 'i', 's']
  | .parent => ['.', '.']
  | .datum name | .field name => '[' :: name.toList ++ [']']

/-- The steps of a path with a slash between any two. -/
def stepsText : List PathStep → List Char
  | [] => []
  | [s] => stepText s
  | s :: rest => stepText s ++ '/' :: stepsText rest

def isDatum : PathStep → Bool
  | .datum _ => true
  | _ => false

/-- A path; the mark of a private datum stands in front of all steps. -/
def pathText (steps : List PathStep) : List Char :=
  if steps.any isDatum then '@' :: stepsText steps else stepsText steps

def expressionText : Expression → List Char
  | .path p => pathText p.steps
  | .string s => stringText s
  | .numeral n => n.source.toList

/-- Parameters, each after a gap, the positional ones before the named ones. -/
inductive ParamsText : List Expression → List (String × Expression) → List Char → Prop
  | nil : ParamsText [] [] []
  | named {name e rest gap before after text} : Gap gap → Blank before → Blank after →
      ParamsText [] rest text →
      ParamsText [] ((name, e) :: rest)
        (gap ++ name.toList ++ before ++ '=' :: after ++ expressionText e ++ text)
  | positional {e rest named gap text} : Gap gap → ParamsText rest named text →
      ParamsText (e :: rest) named (gap ++ expressionText e ++ text)

/-- An expression with its parameters, and white space on both sides. -/
inductive CallText (head : Expression) (arguments : Arguments) : List Char → Prop
  | intro {before params after} : Blank before →
      ParamsText arguments.positional arguments.named.entries params → Blank after →
      CallText head arguments (before ++ expressionText head ++ params ++ after)

/-- The tags that stand alone. -/
inductive TagText : Statement → List Char → Prop
  | comment (body : String) :
      TagText (.comment body) (['{', '{', '!', '-', '-'] ++ body.toList ++ ['-', '-', '}', '}'])
  | escaped {head arguments call} : CallText head arguments call →
      TagText (.tag head arguments true) (['{', '{'] ++ call ++ ['}', '}'])
  | ampersand {head arguments call} : CallText head arguments call →
      TagText (.tag head arguments false) (['{', '{', '&'] ++ call ++ ['}', '}'])
  | braced {head arguments call gap} : CallText head arguments call → Blank gap →
      TagText (.tag head arguments false) (['{', '{', '{'] ++ call ++ '}' :: gap ++ ['}', '}'])
  | insertion {name context named before params after} : Blank before →
      ParamsText (Option.toList context) (NamedParams.entries named) params → Blank after →
      TagText (.insertion name context named)
        (['{', '{', '>'] ++ before ++ stringText name ++ params ++ after ++ ['}', '}'])

/-- The tags that open, divide and close a block. -/
inductive BlockText (path : Path) (arguments : Arguments) : TagBody → List Char → Prop
  | opening {call} : CallText (.path path) arguments call →
      BlockText path arguments (.opening false ⟨path, arguments⟩)
        (['{', '{', '#'] ++ call ++ ['}', '}'])
  | otherwise {before after} : Blank before → Blank after →
      BlockText path arguments (.otherwise none)
        (['{', '{'] ++ before ++ ['e', 'l', 's', 'e'] ++ after ++ ['}', '}'])
  | closing {before after} : Blank before → Blank after →
      BlockText path arguments (.closing path)
        (['{', '{', '/'] ++ before ++ pathText path.steps ++ after ++ ['}', '}'])

/-! Raw text. -/

/-- A backslash before each pair of opening braces, the pairs taken from the left. -/
def escapeBraces : List Char → List Char
  | '{' :: '{' :: rest => '\\' :: '{' :: '{' :: escapeBraces rest
  | c :: rest => c :: escapeBraces rest
  | [] => []

/-- A raw text. Before a tag the backslash that it ends with is doubled. -/
def rawWritten (beforeTag : Bool) (text : List Char) : List Char :=
  escapeBraces text ++ if beforeTag && text.getLast? == some '\\' then ['\\'] else []

/-- A program and a text for it. `beforeTag` says whether a tag follows the program, which is so
inside a block. -/
inductive ProgramText : Bool → Program → List Char → Prop
  | nil {beforeTag} : ProgramText beforeTag [] []
  | raw {beforeTag raw rest text} : ProgramText beforeTag rest text →
      ProgramText beforeTag (.raw raw :: rest)
        (rawWritten (beforeTag || !rest.isEmpty) raw.toList ++ text)
  | tag {beforeTag s rest written text} : TagText s written → ProgramText beforeTag rest text →
      ProgramText beforeTag (s :: rest) (written ++ text)
  | block {beforeTag path arguments main rest opening first closing text} :
      BlockText path arguments (.opening false ⟨path, arguments⟩) opening →
      ProgramText true main first → BlockText path arguments (.closing path) closing →
      ProgramText beforeTag rest text →
      ProgramText beforeTag (.block path arguments main [] :: rest)
        (opening ++ first ++ closing ++ text)
  | divided {beforeTag path arguments main inverse rest opening first middle second closing text} :
      BlockText path arguments (.opening false ⟨path, arguments⟩) opening →
      ProgramText true main first → BlockText path arguments (.otherwise none) middle →
      ProgramText true inverse second → BlockText path arguments (.closing path) closing →
      ProgramText beforeTag rest text →
      ProgramText beforeTag (.block path arguments main inverse :: rest)
        (opening ++ first ++ middle ++ second ++ closing ++ text)

/-! The programs that have a text. -/

/-- A text that can stand between quotes. -/
def WritableString (s : String) : Prop := s.toList.getLast? ≠ some '\\'

def isPlain : PathStep → Bool
  | .this | .field _ => true
  | .parent | .datum _ => false

/-- Steps in the order of a path: parents, at most one private datum, then all others. -/
def InOrder (steps : List PathStep) : Prop :=
  ∃ (parents : Nat) (mark : Option String) (plain : List PathStep),
    steps = List.replicate parents .parent ++ mark.toList.map .datum ++ plain ∧
      ∀ s ∈ plain, isPlain s

/-- The name in a step, empty for a step without. -/
def stepName : PathStep → String
  | .datum name | .field name => name
  | .this | .parent => ""

/-- A path with at least one step, whose names can stand in brackets, and whose source is its
text. -/
structure WritablePath (p : Path) : Prop where
  nonempty : p.steps ≠ []
  inOrder : InOrder p.steps
  names : ∀ s ∈ p.steps, ']' ∉ (stepName s).toList
  source : p.source = String.ofList (pathText p.steps)

/-- A word for a truth value, or a decimal word with its value. -/
def WritableNumeral (n : Numeral) : Prop :=
  n = ⟨.int 1, true, "true"⟩ ∨ n = ⟨.int 0, true, "false"⟩ ∨
    ∃ w : DecimalWord, w.whole ≠ [] ∧ (∀ c ∈ w.whole ++ w.fraction, c.isDigit) ∧
      n = ⟨w.value, false, String.ofList w.text⟩

def WritableExpression : Expression → Prop
  | .path p => WritablePath p
  | .string s => WritableString s
  | .numeral n => WritableNumeral n

/-- Named parameters with distinct names, each one word. -/
structure WritableNamed (named : List (String × Expression)) : Prop where
  distinct : (named.map (·.1)).Nodup
  names : ∀ entry ∈ named, entry.1 ≠ "" ∧ ∀ c ∈ entry.1.toList, isNameChar c
  values : ∀ entry ∈ named, WritableExpression entry.2

structure WritableArguments (arguments : Arguments) : Prop where
  positional : ∀ e ∈ arguments.positional, WritableExpression e
  named : WritableNamed arguments.named.entries

/-- The number of opening braces at the end of a text is even. -/
def Paired (text : List Char) : Prop := (text.reverse.takeWhile (· == '{')).length % 2 = 0

/-- A raw text that can be told from the tags around it: no backslash stands before an escaped pair
of braces, and no single brace before a tag. -/
structure WritableRaw (beforeTag : Bool) (text : List Char) : Prop where
  nonempty : text ≠ []
  noBackslash : ¬ ['\\', '{', '{'] <:+: text
  paired : beforeTag → Paired text

/-- A comment that does not hold the end of a comment. -/
structure WritableComment (body : List Char) : Prop where
  plain : ¬ ['-', '-', '}', '}'] <:+: body
  trimmed : ¬ ['-', '-', '~', '}', '}'] <:+: body

def isRaw : Statement → Bool
  | .raw _ => true
  | _ => false

/-- Programs that have a text. Of two raw texts none follows the other. -/
inductive WritableProgram : Bool → Program → Prop
  | nil {beforeTag} : WritableProgram beforeTag []
  | raw {beforeTag text rest} : WritableRaw (beforeTag || !rest.isEmpty) (String.toList text) →
      (∀ s ∈ rest.head?, isRaw s = false) → WritableProgram beforeTag rest →
      WritableProgram beforeTag (.raw text :: rest)
  | comment {beforeTag body rest} : WritableComment (String.toList body) →
      WritableProgram beforeTag rest → WritableProgram beforeTag (.comment body :: rest)
  | tag {beforeTag head arguments escaped rest} : WritableExpression head →
      WritableArguments arguments → WritableProgram beforeTag rest →
      WritableProgram beforeTag (.tag head arguments escaped :: rest)
  | insertion {beforeTag name context named rest} : WritableString name →
      (∀ e ∈ context, WritableExpression e) → WritableNamed (NamedParams.entries named) →
      WritableProgram beforeTag rest →
      WritableProgram beforeTag (.insertion name context named :: rest)
  | block {beforeTag path arguments main inverse rest} : WritablePath path →
      WritableArguments arguments → WritableProgram true main → WritableProgram true inverse →
      WritableProgram beforeTag rest →
      WritableProgram beforeTag (.block path arguments main inverse :: rest)

end Written

mutual
/-- How deep the blocks of a statement are nested in one another. -/
def Statement.depth : Statement → Nat
  | .block _ _ main inverse => max (programDepth main) (programDepth inverse) + 1
  | .raw _ | .comment _ | .tag .. | .insertion .. => 0

/-- How deep the blocks of a program are nested in one another. -/
def programDepth : Program → Nat
  | [] => 0
  | s :: rest => max s.depth (programDepth rest)
end

/-- A program that has a text, with blocks nested no deeper than they may be. -/
structure Writable (p : Program) : Prop where
  form : Written.WritableProgram false p
  depth : programDepth p ≤ maxBlockDepth

end Stencil
