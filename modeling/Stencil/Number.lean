import Stencil.Number.Shortest

/-!
Numbers of templates and of their data. Integers and doubles are kept apart, so that an integer is
shown without a fraction and compared exactly.
-/
namespace Stencil

/-- A 64-bit integer or a double. -/
inductive Number where
  | int (value : Int64)
  | float (value : Float)
  deriving BEq, Inhabited

namespace Number

/-- The integers of 64 bits. -/
def intRange (n : Int) : Prop := Int64.minValue.toInt ≤ n ∧ n ≤ Int64.maxValue.toInt

instance (n : Int) : Decidable (intRange n) := inferInstanceAs (Decidable (_ ∧ _))

/-- The integer `n` where it has 64 bits, and else the double nearest to it. -/
def ofInt (n : Int) : Number :=
  if intRange n then .int (Int64.ofInt n) else .float (Decimal.mk (n < 0) n.natAbs 0).toFloat

def toFloat : Number → Float
  | .int n => n.toFloat
  | .float x => x

/-- The integer part, which for a double beyond 64 bits is the nearest integer of 64 bits, and zero
for one that is not finite. -/
def truncate : Number → Int64
  | .int n => n
  | .float x => if x.isFinite then x.toInt64 else 0

def isPositive : Number → Bool
  | .int n => 0 < n
  | .float x => 0 < x

/-- Decimal notation of an integer. -/
def intText (n : Int) : String := (Decimal.mk (n < 0) n.natAbs 0).text

/-- The text of a number: an integer in decimal notation, a double as its shortest decimal. -/
def text : Number → String
  | .int n => intText n.toInt
  | .float x => floatText x

end Number
end Stencil
