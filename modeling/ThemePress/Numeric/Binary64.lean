/-! # Rounding to 53 binary digits

The double-precision number nearest to a rational, where the range of exponents plays no part. Of
two that are equally near, the one with an even last digit is taken. -/

namespace ThemePress.Numeric.Binary64

/-- The integer nearest to a rational, a half going to the even neighbour. -/
def nearestInt (x : Rat) : Int :=
  let low := x.floor
  let rest := x - low
  if rest < 1 / 2 then low
  else if 1 / 2 < rest then low + 1
  else if low % 2 = 0 then low
  else low + 1

/-- Two to an integer power. -/
def twoTo (e : Int) : Rat :=
  if 0 ≤ e then ((Nat.pow 2 e.toNat : Nat) : Rat) else mkRat 1 (Nat.pow 2 (-e).toNat)

/-- The greatest power of two that is not above a positive rational, as its exponent. -/
def exponent (x : Rat) : Int :=
  let guess : Int := (x.num.natAbs.log2 : Int) - (x.den.log2 : Int)
  if x < twoTo guess then guess - 1 else guess

/-- The nearest rational with 53 binary digits. -/
def nearest (x : Rat) : Rat :=
  if x = 0 then 0
  else
    let unit := twoTo (exponent (if x < 0 then -x else x) - 52)
    nearestInt (x / unit) * unit

end ThemePress.Numeric.Binary64
