/-!
# The shortest decimal of a binary float

A finite nonzero float has magnitude `m * 2 ^ q`.  The decimals that read back as it
are those in the interval between the midpoints to its two neighbours; the ends belong
to the interval when `m` is even.  The shortest decimal is taken on the coarsest grid
of 1, 2, ... significant digits that has a point in the interval, and of two such points
it is the nearer one.  All comparisons are exact, on natural numbers.
-/

namespace MatrixProgram.Decimal

/-- The widths of a binary interchange format: explicit significand bits and exponent
bits. -/
structure Format where
  significandBits : Nat
  exponentBits : Nat
deriving DecidableEq, Repr

/-- The 32-bit format. -/
def single : Format :=
  ⟨23, 8⟩

/-- The 64-bit format. -/
def double : Format :=
  ⟨52, 11⟩

/-- What a bit pattern stands for.  A finite value has magnitude
`significand * 2 ^ exponent`; `narrowBelow` says that the neighbour below is nearer than
the neighbour above, as at a power of two. -/
inductive Value where
  | nan
  | infinite (negative : Bool)
  | finite (negative : Bool) (significand : Nat) (exponent : Int) (narrowBelow : Bool)
deriving DecidableEq, Repr

/-- The value of a bit pattern of a format. -/
def Format.decode (f : Format) (bits : Nat) : Value :=
  let significands := Nat.pow 2 f.significandBits
  let exponents := Nat.pow 2 f.exponentBits
  let fraction := bits % significands
  let biased := bits / significands % exponents
  let negative := bits / significands / exponents % 2 == 1
  let bias : Int := (exponents / 2 : Nat) - 1 + f.significandBits
  if biased = exponents - 1 then
    -- The greatest exponent is reserved for what is not a number of the format.
    if fraction = 0 then .infinite negative else .nan
  else if biased = 0 then
    -- Subnormal: no implicit leading bit, and the exponent of the least normal number.
    .finite negative fraction (1 - bias) false
  else
    .finite negative (fraction + significands) (biased - bias)
      (fraction = 0 && biased > 1)

/-- A nonzero magnitude `significand * 2 ^ exponent` and the shape of its interval. -/
structure Magnitude where
  significand : Nat
  exponent : Int
  narrowBelow : Bool
deriving DecidableEq, Repr

namespace Magnitude

/-- Multiply by `base ^ e` on the side of a comparison where the exponent is positive. -/
private def scaleUp (base : Nat) (e : Int) : Nat :=
  Nat.pow base e.toNat

/-- Four times the significand, at a quarter of its unit: the scale on which the
interval's ends are whole. -/
def quarters (x : Magnitude) : Nat :=
  4 * x.significand

/-- The lower end of the interval, in quarters. -/
def lowerQuarters (x : Magnitude) : Nat :=
  x.quarters - if x.narrowBelow then 1 else 2

/-- The upper end of the interval, in quarters. -/
def upperQuarters (x : Magnitude) : Nat :=
  x.quarters + 2

/-- The factors `a` and `b` for which `n` quarters compare with `d * 10 ^ k` as `n * a`
compares with `d * b`. -/
def factors (x : Magnitude) (k : Int) : Nat × Nat :=
  let e := x.exponent - 2
  (scaleUp 2 e * scaleUp 10 (-k), scaleUp 2 (-e) * scaleUp 10 k)

/-- The decimal `d * 10 ^ k` reads back as the magnitude. -/
def readsBack (x : Magnitude) (k : Int) (d : Nat) : Bool :=
  let (a, b) := x.factors k
  if x.significand % 2 = 0 then
    x.lowerQuarters * a ≤ d * b && d * b ≤ x.upperQuarters * a
  else
    x.lowerQuarters * a < d * b && d * b < x.upperQuarters * a

/-- The point of the grid of multiples of `10 ^ k` that reads back as the magnitude and
is nearest to it, if the grid has one.  Of two equally near points it is the upper. -/
def onGrid (x : Magnitude) (k : Int) : Option Nat :=
  let (a, b) := x.factors k
  -- If a point of the grid reads back, so does one of the two around the magnitude.
  let below := x.quarters * a / b
  let above := below + 1
  match x.readsBack k below, x.readsBack k above with
  | true, true =>
      if x.quarters * a - below * b < above * b - x.quarters * a then below else above
  | true, false => below
  | false, true => above
  | false, false => none

/-- The greatest `k` with `10 ^ k` not above the magnitude, among `bound` candidates
from `top` downwards. -/
def leadingExponent (x : Magnitude) : Nat → Int → Int
  | 0, top => top
  | bound + 1, top =>
      let (a, b) := x.factors top
      if b ≤ x.quarters * a then top else x.leadingExponent bound (top - 1)

/-- The first grid of `digits, digits + 1, ...` significant digits with a point that
reads back, among `bound` grids, given the exponent of the leading digit. -/
def firstGrid (x : Magnitude) (leading : Int) : Nat → Nat → Option (Nat × Int)
  | 0, _ => none
  | bound + 1, digits =>
      let k := leading - digits + 1
      match x.onGrid k with
      | some d => some (d, k)
      | none => x.firstGrid leading bound (digits + 1)

/-- The shortest decimal `d * 10 ^ k` that reads back as the magnitude. -/
def shortest (x : Magnitude) : Nat × Int :=
  -- Below `10 ^ 309`, and 700 steps down pass the least positive number.
  let leading := x.leadingExponent 700 309
  match x.firstGrid leading 17 1 with
  | some decimal => decimal
  | none => (0, 0)

end Magnitude

end MatrixProgram.Decimal
