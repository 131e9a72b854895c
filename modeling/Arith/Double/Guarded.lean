import Arith.Double.Power

/-!
# Operations on a machine that refuses

A machine may refuse an operation where the arithmetic of doubles has a result: it divides by no zero,
and where a power has no finite value for finite arguments it reports the cause. The guarded operations
never refuse. They look for the zero divisor first, and for a power they take up the report.
-/

namespace Arith.Double

/-- Why the machine gives no result. -/
inductive Refusal where
  | zeroDivisor
  | outOfDomain
  | outOfRange
deriving DecidableEq

def isFinite : Double → Bool
  | finite .. => true
  | _ => false

def isInfinite : Double → Bool
  | infinite _ => true
  | _ => false

/-- Less than zero as a number: neither zero is. -/
def isBelowZero : Double → Bool
  | nan => false
  | infinite negative => negative
  | finite negative units _ => negative && units != 0

/-- The magnitude of the one with the sign of the other. -/
def copySign (x sign : Double) : Double := x.magnitude.negateIf sign.isNegative

/-! ## Division -/

/-- The quotient, unless the divisor is a zero. -/
def refusingDiv (x y : Double) : Except Refusal Double :=
  if y.isZero then .error .zeroDivisor else .ok (x.div y)

/-- The quotient; over a zero it is infinite, with the sign of both together. -/
def guardedDiv (x y : Double) : Except Refusal Double :=
  if y.isZero then
    if x.isZero ∨ x = nan then .ok nan
    else .ok ((copySign (infinite false) x).mul (copySign (ofInt 1) y))
  else refusingDiv x y

/-! ## Odd integers -/

/-- What is left after taking away twos, with the sign of the dividend. -/
def restByTwo : Double → Double
  | finite negative units _ => ofQuotient negative (units % (2 * one)) 1
  | _ => nan

/-- The remainder by two with the sign of the divisor. -/
def modTwo (x : Double) : Double :=
  if x.restByTwo.isZero then zero false
  else if x.restByTwo.isBelowZero then x.restByTwo.add (ofInt 2)
  else x.restByTwo

def isOddInteger (x : Double) : Bool := x.isFinite && x.isWhole && x.modTwo == ofInt 1

/-! ## Powers -/

section
variable (pow : Double → Double → Double)

/-- The given power, unless finite arguments have no finite one: there is none of a negative base for a
fraction or of zero for a negative exponent, and others are too large. -/
def refusingPow (base exponent : Double) : Except Refusal Double :=
  if base.isFinite ∧ exponent.isFinite then
    if (base.isBelowZero ∧ ¬ exponent.isWhole) ∨ (base.isZero ∧ exponent.isBelowZero) then
      .error .outOfDomain
    else if ¬ base.isZero ∧ (pow base exponent).isInfinite then .error .outOfRange
    else .ok (pow base exponent)
  else .ok (pow base exponent)

/-- The given power, and in place of a refused one no number or an infinity. -/
def guardedPow (base exponent : Double) : Except Refusal Double :=
  match refusingPow pow base exponent with
  | .error .outOfDomain =>
    if base.isZero ∧ exponent.isBelowZero then
      if exponent.isOddInteger then .ok (copySign (infinite false) base) else .ok (infinite false)
    else .ok nan
  | .error .outOfRange =>
    if base.isBelowZero ∧ exponent.isOddInteger then .ok (infinite true) else .ok (infinite false)
  | result => result

end

end Arith.Double
