import Stencil.Value

/-!
What can go wrong: a template text that does not parse, with the place and the reason, and a
rendering that fails. Each error has one message, and a list of the errors it was caused by.
-/
namespace Stencil

/-- Why a text does not parse. -/
inductive ParseFailure where
  | unexpectedToken (expected found : String)
  /-- The text ended early; the clause says what was expected, if anything. -/
  | unexpectedEnd (clause : String)
  | invalidIdentifier (character : String)
  | mismatchedClose (opened closed : String)
  | nestingTooDeep (limit : Nat)
  | expected (description : String)
  | message (text : String)
  deriving DecidableEq, Repr, Inhabited

namespace ParseFailure

/-- The failure of a text that ends where `what` should follow. -/
def endOfText (what : Option String) : ParseFailure :=
  .unexpectedEnd (what.elim "" fun w => " (expected '" ++ w ++ "')")

def text : ParseFailure → String
  | .unexpectedToken wanted found => "Expected " ++ wanted ++ ", found " ++ found
  | .unexpectedEnd clause => "Unexpected EOF" ++ clause
  | .invalidIdentifier c => "Invalid identifier starting with '" ++ c ++ "'"
  | .mismatchedClose opened closed => "'" ++ opened ++ "' was closed by '" ++ closed ++ "'"
  | .nestingTooDeep limit => "Blocks nested deeper than " ++ toString limit ++ " levels"
  | .expected description => "Expected " ++ description
  | .message m => "Parser error: " ++ m

end ParseFailure

/-- A text that does not parse. `line` and `column` count from one, `column` and `position` count
bytes, and `context` is the text around the position. -/
structure ParseError where
  line : Nat
  column : Nat
  position : Nat
  context : String
  kind : ParseFailure
  deriving DecidableEq, Repr, Inhabited

def ParseError.text (e : ParseError) : String :=
  "Parse error at line " ++ toString e.line ++ ", column " ++ toString e.column ++ ": " ++
    e.kind.text ++ " (near \"" ++ e.context ++ "\")"

def HostAccessError.text (e : HostAccessError) : String :=
  e.typeName ++ " failed while reading '" ++ e.key ++ "': " ++ e.message

/-- A rendering that fails. -/
inductive RenderError where
  | parse (error : ParseError)
  | missingHelper (name : String)
  | missingPartial (name : String)
  | invalidPartial (name : String) (error : ParseError)
  | hostAccess (error : HostAccessError)
  | helper (name message : String)
  | recursionLimit (name : String) (limit : Nat)
  deriving DecidableEq, Repr, Inhabited

namespace RenderError

def text : RenderError → String
  | .parse e => e.text
  | .missingHelper name => "Helper not found: " ++ name
  | .missingPartial name => "Partial not found: " ++ name
  | .invalidPartial name e => "Partial '" ++ name ++ "' could not be compiled: " ++ e.text
  | .hostAccess e => e.text
  | .helper name message => "Helper '" ++ name ++ "' failed: " ++ message
  | .recursionLimit name limit =>
    "Partial '" ++ name ++ "' exceeded the nesting limit of " ++ toString limit

/-- The texts of the errors that an error was caused by, the nearest first. An error that is shown
as its cause stands for it and counts only what caused that one. -/
def causes : RenderError → List String
  | .parse e => [e.kind.text]
  | .invalidPartial _ e => [e.text, e.kind.text]
  | _ => []

end RenderError
end Stencil
