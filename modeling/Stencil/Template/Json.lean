import Stencil.Json
import Stencil.Template

/-!
JSON forms of options and of templates. A template is written as its text and its options; what it
was compiled to and the entries of its own context are left out, and a template that is read back
has to parse.
-/
namespace Stencil

namespace RenderOptions

def toJson (o : RenderOptions) : Json :=
  .object [("max_partial_depth", .int o.partialLimit), ("target_format", .string o.targetFormat)]

/-- A field that is read by `read`, or has its usual value where it is missing. -/
def fieldOr {α : Type} (usual : α) (read : Json → Option α) : Option Json → Option α
  | none => some usual
  | some j => read j

/-- Options that are missing have their usual values. -/
def ofJson? (j : Json) : Option RenderOptions := do
  match ← j.fields? ["target_format", "max_partial_depth"] with
  | [format, limit] =>
    return { targetFormat := ← fieldOr defaultTargetFormat Json.asString? format
             partialLimit := ← fieldOr defaultPartialLimit Json.asNat? limit }
  | _ => none

end RenderOptions

/-- The JSON form of a template. -/
def Template.toJson (t : Template) : Json :=
  .object [("options", t.options.toJson), ("source", .string t.source)]

/-- Why a document is no template: its form, or a text that does not parse. -/
inductive TemplateFault where
  | form
  | parse (error : ParseError)
  deriving DecidableEq, Repr, Inhabited

def TemplateFault.message? : TemplateFault → Option String
  | .form => none
  | .parse e => some ("Failed to parse template: " ++ e.text)

/-- The text and options of a document. -/
def templateFields? (j : Json) : Option (String × RenderOptions) := do
  match ← j.fields? ["source", "options"] with
  | [some source, options] =>
    return (← source.asString?, ← RenderOptions.fieldOr {} RenderOptions.ofJson? options)
  | _ => none

/-- The template of a document, with a context of its own and no shared one. -/
def Template.ofJson (j : Json) (own : ContextId) : Except TemplateFault Template :=
  match templateFields? j with
  | none => .error .form
  | some (source, options) =>
    match parse source with
    | .error e => .error (.parse e)
    | .ok _ => .ok { source, options, own }

end Stencil
