import Arith.Double.Arithmetic

/-!
# Powers of doubles

Zeros, infinities and `nan` are decided here, and so is the sign. What is left, a positive finite
base with a finite exponent, goes to the machine's power function by way of the bit pattern.
-/

namespace Arith.Double

/-! ## Bit patterns -/

/-- The 64-bit pattern: sign, exponent field, significand without its leading digit. -/
def toBits : Double → UInt64
  | nan => 0x7FF8000000000000
  | infinite negative => if negative then 0xFFF0000000000000 else 0x7FF0000000000000
  | finite negative units _ =>
    let shift := units.log2 - 52
    let magnitude := shift * Nat.pow 2 52 + units / Nat.pow 2 shift
    UInt64.ofNat (if negative then Nat.pow 2 63 + magnitude else magnitude)

/-- The double of a bit pattern; every pattern past infinity is `nan`. -/
def ofBits (bits : UInt64) : Double :=
  let negative := Nat.pow 2 63 ≤ bits.toNat
  let magnitude := bits.toNat % Nat.pow 2 63
  let field := magnitude / Nat.pow 2 52
  if 2047 ≤ field then
    if magnitude % Nat.pow 2 52 = 0 then infinite negative else nan
  else
    let shift := field - 1
    ofQuotient negative ((magnitude - shift * Nat.pow 2 52) * Nat.pow 2 shift) 1

/-! ## The power function -/

def isZero : Double → Bool
  | finite _ units _ => units = 0
  | _ => false

/-- A finite number without a fraction. -/
def isWhole : Double → Bool
  | finite _ units _ => units % one = 0
  | _ => false

/-- A whole number that two does not divide. -/
def isOdd : Double → Bool
  | finite _ units _ => units % (2 * one) = one
  | _ => false

/-- The double without its sign. -/
def magnitude : Double → Double
  | nan => nan
  | infinite _ => infinite false
  | finite _ units fits => finite false units fits

/-- A positive finite base to a finite exponent, as the machine computes it. Such a power has no sign
of its own, so none is taken over. -/
def machinePower (base exponent : Double) : Double :=
  (ofBits ((Float.ofBits base.toBits).pow (Float.ofBits exponent.toBits)).toBits).magnitude

/-- The power of a base without its sign; neither argument is `nan`. -/
def powerOfMagnitude (base exponent : Double) : Double :=
  match base, exponent with
  | finite _ units fits, infinite down =>
    if units = one then finite false units fits
    else if (units < one : Bool) = down then infinite false
    else zero false
  | finite _ units fits, finite down .. =>
    if units = 0 then
      if down then infinite false else zero false
    else machinePower (finite false units fits) exponent
  | _, _ => if exponent.isNegative then zero false else infinite false

/-- The power. Anything to the zeroth is one and one to anything is one; a negative base has a power
only for whole exponents, and an odd one keeps its sign. -/
def power (base exponent : Double) : Double :=
  if exponent.isZero ∨ base = ofInt 1 then ofInt 1
  else if base = nan ∨ exponent = nan then nan
  else
    match base, exponent with
    | finite true (_ + 1) _, finite .. =>
      if exponent.isWhole then (powerOfMagnitude base exponent).negateIf exponent.isOdd else nan
    | _, _ => (powerOfMagnitude base exponent).negateIf (base.isNegative && exponent.isOdd)

end Arith.Double
