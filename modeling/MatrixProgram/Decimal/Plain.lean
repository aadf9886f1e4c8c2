import MatrixProgram.Decimal.Shortest

/-!
# Plain decimal notation

Numbers in component descriptions are written positionally, whatever their size: the
digits of the shortest decimal, a point only where there are digits after it, and no
exponent.
-/

namespace MatrixProgram.Decimal

/-- The texts of the values that have no digits, and of the sign. -/
structure PlainStyle where
  nan : String
  infinity : String
  minus : String
  zero : String
deriving Repr

/-- Component descriptions write `NaN`, `inf` and `0`, and a minus sign also before a
negative zero. -/
def PlainStyle.description : PlainStyle :=
  ⟨"NaN", "inf", "-", "0"⟩

/-- Drop zeros at the end of the digits of `d * 10 ^ k` as long as `k` is negative, by at
most `bound` steps. -/
def dropTrailingZeros : Nat → Nat → Int → Nat × Int
  | 0, d, k => (d, k)
  | bound + 1, d, k =>
      if k < 0 ∧ d % 10 = 0 then dropTrailingZeros bound (d / 10) (k + 1) else (d, k)

/-- A text of `n` zeros. -/
def zeros (n : Nat) : String :=
  String.ofList (List.replicate n '0')

/-- The positional digits of `d * 10 ^ k`. -/
def positional (d : Nat) (k : Int) : String :=
  let (d, k) := dropTrailingZeros 20 d k
  let digits := toString d
  if 0 ≤ k then
    digits ++ zeros k.toNat
  else
    let places := (-k).toNat
    let padded := zeros (places + 1 - digits.length) ++ digits
    let whole := padded.length - places
    String.ofList (padded.toList.take whole) ++ "." ++
      String.ofList (padded.toList.drop whole)

/-- A value in plain notation. -/
def PlainStyle.render (style : PlainStyle) : Value → String
  | .nan => style.nan
  | .infinite negative => (if negative then style.minus else "") ++ style.infinity
  | .finite negative significand exponent narrowBelow =>
      (if negative then style.minus else "") ++
        if significand = 0 then
          style.zero
        else
          let (d, k) := (Magnitude.mk significand exponent narrowBelow).shortest
          positional d k

/-- A 32-bit float in plain notation. -/
def plainSingle (x : Float32) : String :=
  PlainStyle.description.render (single.decode x.toBits.toNat)

/-- A 64-bit float in plain notation. -/
def plainDouble (x : Float) : String :=
  PlainStyle.description.render (double.decode x.toBits.toNat)

end MatrixProgram.Decimal
