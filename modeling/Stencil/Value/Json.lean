import Stencil.Json
import Stencil.Value

/-!
Values of JSON documents.
-/
namespace Stencil
namespace Value

mutual
/-- The value of a document. -/
def ofJson : Json → Value
  | .null => .null
  | .bool b => .bool b
  | .int n => .ofInt n
  | .float x => .number (.float x)
  | .string s => .string s
  | .array items => .array (ofItems items)
  | .object entries => .object (ofEntries entries)

def ofItems : List Json → List Value
  | [] => []
  | j :: rest => ofJson j :: ofItems rest

def ofEntries : List (String × Json) → List (String × Value)
  | [] => []
  | (name, j) :: rest => (name, ofJson j) :: ofEntries rest
end

end Value
end Stencil
