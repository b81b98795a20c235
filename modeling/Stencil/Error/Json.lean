import Stencil.Error
import Stencil.Json

/-!
JSON forms of errors. A kind of error is a tagged union: the tag is the name of the kind, and what
it carries is a record, a text, or a further error. An error reads back from its JSON form.
-/
namespace Stencil

namespace ParseFailure

def toJson : ParseFailure → Json
  | .unexpectedToken wanted found =>
    .object [("UnexpectedToken", .object [("expected", .string wanted), ("found", .string found)])]
  | .unexpectedEnd clause =>
    .object [("UnexpectedEOF", .object [("expected_what", .string clause)])]
  | .invalidIdentifier c => .object [("InvalidIdentifier", .object [("at_char", .string c)])]
  | .mismatchedClose opened closed =>
    .object [("MismatchedClose", .object [("close", .string closed), ("open", .string opened)])]
  | .nestingTooDeep limit => .object [("NestingTooDeep", .object [("limit", .int limit)])]
  | .expected description =>
    .object [("Expected", .object [("description", .string description)])]
  | .message m => .object [("Message", .string m)]

def ofJson? (j : Json) : Option ParseFailure := do
  let (tag, content) ← j.tagged?
  match tag with
  | "UnexpectedToken" =>
    return .unexpectedToken (← content.stringAt? "expected") (← content.stringAt? "found")
  | "UnexpectedEOF" => return .unexpectedEnd (← content.stringAt? "expected_what")
  | "InvalidIdentifier" => return .invalidIdentifier (← content.stringAt? "at_char")
  | "MismatchedClose" =>
    return .mismatchedClose (← content.stringAt? "open") (← content.stringAt? "close")
  | "NestingTooDeep" => return .nestingTooDeep (← content.natAt? "limit")
  | "Expected" => return .expected (← content.stringAt? "description")
  | "Message" => return .message (← content.asString?)
  | _ => none

end ParseFailure

namespace ParseError

def toJson (e : ParseError) : Json :=
  .object [("column", .int e.column), ("context", .string e.context), ("kind", e.kind.toJson),
    ("line", .int e.line), ("position", .int e.position)]

def ofJson? (j : Json) : Option ParseError := do
  match ← j.record? ["line", "column", "position", "context", "kind"] with
  | [line, column, position, context, kind] =>
    return { line := ← line.asNat?, column := ← column.asNat?, position := ← position.asNat?
             context := ← context.asString?, kind := ← ParseFailure.ofJson? kind }
  | _ => none

end ParseError

namespace HostAccessError

def toJson (e : HostAccessError) : Json :=
  .object [("key", .string e.key), ("message", .string e.message),
    ("type_name", .string e.typeName)]

def ofJson? (j : Json) : Option HostAccessError := do
  match ← j.record? ["type_name", "key", "message"] with
  | [typeName, key, message] =>
    return { typeName := ← typeName.asString?, key := ← key.asString?
             message := ← message.asString? }
  | _ => none

end HostAccessError

namespace RenderError

/-- The name of the kind of an error. -/
def tag : RenderError → String
  | .parse _ => "Parse"
  | .missingHelper _ => "MissingHelper"
  | .missingPartial _ => "MissingPartial"
  | .invalidPartial _ _ => "InvalidPartial"
  | .hostAccess _ => "HostAccess"
  | .helper _ _ => "Helper"
  | .recursionLimit _ _ => "RecursionLimit"

/-- What an error carries. -/
def content : RenderError → Json
  | .parse e => e.toJson
  | .missingHelper name => .object [("helper_name", .string name)]
  | .missingPartial name => .object [("partial_name", .string name)]
  | .invalidPartial name e => .object [("partial_name", .string name), ("source", e.toJson)]
  | .hostAccess e => e.toJson
  | .helper name message => .object [("helper_name", .string name), ("message", .string message)]
  | .recursionLimit name limit => .object [("limit", .int limit), ("partial_name", .string name)]

def toJson (e : RenderError) : Json := .object [(e.tag, e.content)]

def ofJson? (j : Json) : Option RenderError := do
  let (tag, content) ← j.tagged?
  match tag with
  | "Parse" => return .parse (← ParseError.ofJson? content)
  | "MissingHelper" => return .missingHelper (← content.stringAt? "helper_name")
  | "MissingPartial" => return .missingPartial (← content.stringAt? "partial_name")
  | "InvalidPartial" =>
    return .invalidPartial (← content.stringAt? "partial_name")
      (← ParseError.ofJson? (← content.at? "source"))
  | "HostAccess" => return .hostAccess (← HostAccessError.ofJson? content)
  | "Helper" => return .helper (← content.stringAt? "helper_name") (← content.stringAt? "message")
  | "RecursionLimit" =>
    return .recursionLimit (← content.stringAt? "partial_name") (← content.natAt? "limit")
  | _ => none

end RenderError
end Stencil
