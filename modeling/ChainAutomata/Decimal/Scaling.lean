/-
Scaling: the double of a significand and a power of ten.

The significand is rounded to a double first and then multiplied or divided by the double nearest
to the power.  A power below the table is applied in several divisions.  This is what common
readers of decimals do where speed counts more than the last bit.
-/

namespace ChainAutomata.Decimal

/-- The largest power of ten with a double of its own. -/
def largestPower : Nat := 308

/-- The double nearest to a power of ten. -/
def powerOfTen (n : Nat) : Float := Float.ofScientific 1 false n

/-- Multiplies or divides by a power of ten; there is no answer when the product is infinite. -/
def scale : (attempts : Nat) → Float → Int → Option Float
  | 0, _, _ => none
  | n + 1, x, exponent =>
    if exponent.natAbs ≤ largestPower then
      if 0 ≤ exponent then
        let y := x * powerOfTen exponent.natAbs
        if y.isInf then none else some y
      else some (x / powerOfTen exponent.natAbs)
    else if x == 0.0 then some x
    else if 0 ≤ exponent then none
    else scale n (x / powerOfTen largestPower) (exponent + largestPower)

/-- The double of `significand · 10 ^ exponent`.  After a few divisions nothing is left, so the
number of attempts is no restriction. -/
def double? (significand : Nat) (exponent : Int) : Option Float :=
  scale 8 (Float.ofNat significand) exponent

end ChainAutomata.Decimal
