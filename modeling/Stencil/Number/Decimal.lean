/-!
Decimals with a sign, written positionally: all digits, a point only before a fraction, never an
exponent.
-/
namespace Stencil

/-- The decimal `digits * 10 ^ exponent`, negated if `negative`; zero keeps its sign. -/
structure Decimal where
  negative : Bool
  digits : Nat
  exponent : Int
  deriving DecidableEq, Repr

namespace Decimal

/-- The digits of `n`, the most significant first. -/
def digitChars (n : Nat) : List Char := Nat.toDigits 10 n

/-- The value of a run of digits, zero for the empty run. -/
def valueOf (digits : List Char) : Nat :=
  digits.foldl (fun n c => 10 * n + (c.toNat - '0'.toNat)) 0

/-- The integer part and the fraction of `digits`, the last `places` of which follow the point. -/
def split (digits : List Char) (places : Nat) : List Char × List Char :=
  let padded := List.replicate (places + 1 - digits.length) '0' ++ digits
  (padded.take (padded.length - places), padded.drop (padded.length - places))

/-- Positional notation of a decimal without its sign. -/
def magnitude (digits : Nat) (exponent : Int) : List Char :=
  if 0 ≤ exponent then digitChars (digits * Nat.pow 10 exponent.toNat)
  else
    let (whole, fraction) := split (digitChars digits) (-exponent).toNat
    whole ++ '.' :: fraction

/-- Positional notation. -/
def text (d : Decimal) : String :=
  String.ofList (if d.negative then '-' :: magnitude d.digits d.exponent
    else magnitude d.digits d.exponent)

/-- The double nearest to a decimal; of two equally near ones the even one. -/
def toFloat (d : Decimal) : Float :=
  let size := Float.ofScientific d.digits (d.exponent < 0) d.exponent.natAbs
  if d.negative then -size else size

/-- The single precision number nearest to a decimal, as a double. -/
def toSingle (d : Decimal) : Float :=
  let size := Float32.ofScientific d.digits (d.exponent < 0) d.exponent.natAbs
  (if d.negative then -size else size).toFloat

end Decimal
end Stencil
