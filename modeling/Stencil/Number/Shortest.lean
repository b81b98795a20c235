import Stencil.Number.Decimal

/-!
The shortest decimal of a double: of the decimals that read back as the double, those with the
fewest digits, of these the nearest, and of two equally near ones the larger.

A finite double is `mantissa * 2 ^ power`. The decimals that read back as it fill an interval
around it, whose ends belong to it when the mantissa is even. On the grid of the multiples of a
power of ten the two neighbours of the double are the only candidates: if any point of the grid
lies in the interval, one of the two does.
-/
namespace Stencil
namespace Shortest

/-- A double and the ends of its interval, as numerators over one denominator. -/
structure Interval where
  low : Nat
  middle : Nat
  high : Nat
  denominator : Nat
  closed : Bool

/-- Whether a numerator lies in the interval. -/
def Interval.contains (i : Interval) (n : Nat) : Bool :=
  if i.closed then i.low ≤ n && n ≤ i.high else i.low < n && n < i.high

/-- The interval of `mantissa * 2 ^ power`. Half of the gap to the next double lies on either side;
below a power of two the gap is half as wide. -/
def interval (mantissa : Nat) (power : Int) (narrowBelow : Bool) : Interval :=
  let quarters := power - 2
  let up := Nat.pow 2 quarters.toNat
  { low := (4 * mantissa - if narrowBelow then 1 else 2) * up
    middle := 4 * mantissa * up
    high := (4 * mantissa + 2) * up
    denominator := Nat.pow 2 (-quarters).toNat
    closed := mantissa % 2 == 0 }

/-- The interval in units of `10 ^ exponent`. -/
def Interval.scale (i : Interval) (exponent : Int) : Interval :=
  let fine := Nat.pow 10 (-exponent).toNat
  { i with
    low := i.low * fine
    middle := i.middle * fine
    high := i.high * fine
    denominator := i.denominator * Nat.pow 10 exponent.toNat }

/-- The multiple of the unit that lies in the interval, the nearer of two and the larger of two
equally near ones. -/
def Interval.unitPoint? (i : Interval) : Option Nat :=
  let below := i.middle / i.denominator
  let lower := i.contains (below * i.denominator)
  let upper := i.contains ((below + 1) * i.denominator)
  if lower && upper then
    if 2 * (i.middle % i.denominator) < i.denominator then some below else some (below + 1)
  else if lower then some below
  else if upper then some (below + 1)
  else none

/-- The first grid with a point in the interval, from `10 ^ exponent` on to finer ones. -/
def search (i : Interval) (negative : Bool) : Nat → Int → Decimal
  | 0, exponent => ⟨negative, (i.scale exponent).middle / (i.scale exponent).denominator, exponent⟩
  | tries + 1, exponent =>
    match (i.scale exponent).unitPoint? with
    | some digits => ⟨negative, digits, exponent⟩
    | none => search i negative tries (exponent - 1)

/-- An exponent of ten above every point of the interval. -/
def topExponent (mantissa : Nat) (power : Int) : Int :=
  (mantissa.log2 + power + 2) * 30103 / 100000 + 2

/-- The shortest decimal of `mantissa * 2 ^ power`. Seventeen digits always suffice, and the search
starts at most four grids too coarse. -/
def decimal (negative : Bool) (mantissa : Nat) (power : Int) (narrowBelow : Bool) : Decimal :=
  search (interval mantissa power narrowBelow) negative 24 (topExponent mantissa power)

end Shortest

/-- The text of a double: its shortest decimal in positional notation, or `NaN`, `inf`, `-inf`. -/
def floatText (x : Float) : String :=
  let negative := x.toBits >>> 63 == 1
  let biased := (x.toBits >>> 52 &&& 0x7ff).toNat
  let fraction := (x.toBits &&& 0xfffffffffffff).toNat
  if biased = 2047 then
    if fraction ≠ 0 then "NaN" else if negative then "-inf" else "inf"
  else if biased = 0 then
    if fraction = 0 then (Decimal.mk negative 0 0).text
    else (Shortest.decimal negative fraction (-1074) false).text
  else
    let mantissa := 0x10000000000000 + fraction
    let narrowBelow := fraction == 0 && biased != 1
    (Shortest.decimal negative mantissa ((biased : Int) - 1075) narrowBelow).text

end Stencil
