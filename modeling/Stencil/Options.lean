/-!
Options of a rendering.
-/
namespace Stencil

def defaultTargetFormat : String := "text/html"

def defaultPartialLimit : Nat := 64

/-- The format that texts are escaped for, and how many partials may be rendered inside one
another. -/
structure RenderOptions where
  targetFormat : String := defaultTargetFormat
  partialLimit : Nat := defaultPartialLimit
  deriving DecidableEq, Repr, Inhabited

end Stencil
