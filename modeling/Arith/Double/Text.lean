import Arith.Double.Arithmetic

/-!
# The text of a double

A double is written with the fewest digits that read back as the same double; of two such decimals
the nearer one, a tie going to the even digit. Numbers from `0.0001` up to sixteen digits before
the point are written out, all others with an exponent.
-/

namespace Arith

/-- The number `digits * 10 ^ exponent`. -/
structure Decimal where
  digits : Nat
  exponent : Int

namespace Decimal

/-- The numerator, in units, of the quotient that a decimal stands for. -/
def num (d : Decimal) : Nat := d.digits * Nat.pow 10 d.exponent.toNat * Double.one

def den (d : Decimal) : Nat := Nat.pow 10 (-d.exponent).toNat

/-- Whether the decimal reads back as this count of units. -/
def readsAs (d : Decimal) (units : Nat) : Bool := Double.nearestUnits d.num d.den = units

/-- Digits that end in zeros lose them to the exponent; at most `fuel` zeros are moved. -/
def trim : Nat → Decimal → Decimal
  | 0, d => d
  | fuel + 1, d =>
    if d.digits % 10 = 0 then trim fuel ⟨d.digits / 10, d.exponent + 1⟩ else d

/-- The nearest double. Exponents far out of range are settled without the power of ten. -/
def toDouble (negative : Bool) (d : Decimal) : Double :=
  if d.digits = 0 then .zero negative
  else if 400 < d.exponent then .infinite negative
  else if d.exponent < -(d.digits.log2 + 1000 : Int) then .zero negative
  else .ofQuotient negative d.num d.den

/-! ## The fewest digits -/

/-- The exponent of the leading decimal digit of a positive count of units. The binary digits tell it
up to one, since `30103 / 100000` is just above the logarithm of two to base ten. -/
def leading (units : Nat) : Int :=
  let guess := ((units.log2 : Int) - 1074) * 30103 / 100000
  let next : Decimal := ⟨1, guess + 1⟩
  if next.num ≤ units * next.den then guess + 1 else guess

/-- The decimal of so many digits that reads back as these units, if there is one, for a number whose
leading digit has the given exponent. It is one of the two that enclose the number. -/
def ofWidth? (units : Nat) (lead : Int) (width : Nat) : Option Decimal :=
  let exponent := lead - (width - 1 : Int)
  let num := units * Nat.pow 10 (-exponent).toNat
  let den := Double.one * Nat.pow 10 exponent.toNat
  let low : Decimal := ⟨num / den, exponent⟩
  let high : Decimal := ⟨num / den + 1, exponent⟩
  match low.readsAs units, high.readsAs units with
  | true, true => some ⟨Double.roundQuotient num den, exponent⟩
  | true, false => some low
  | false, true => some high
  | false, false => none

/-- The shortest decimal that reads back as these units. Seventeen digits are always enough; were they
not, the exact decimal would stand. -/
def shortest (units : Nat) : Decimal :=
  let lead := leading units
  let found := (List.range 17).findSome? fun n => ofWidth? units lead (n + 1)
  trim 17 (found.getD ⟨units * Nat.pow 5 1074, -1074⟩)

/-! ## Writing -/

def zeros (n : Nat) : String := String.ofList (List.replicate n '0')

/-- The exponent mark with a sign and at least two digits. -/
def exponentMark (e : Int) : String :=
  (if e < 0 then "e-" else "e+") ++ (if e.natAbs < 10 then "0" else "") ++ toString e.natAbs

/-- Digits with a point after the first `k`. -/
def pointed (digits : String) (k : Nat) : String :=
  String.ofList (digits.toList.take k) ++ "." ++ String.ofList (digits.toList.drop k)

/-- The written form of a decimal without trailing zeros. -/
def text (d : Decimal) : String :=
  let digits := toString d.digits
  let e : Int := digits.length + d.exponent - 1
  if e < -4 ∨ 16 ≤ e then
    (if digits.length = 1 then digits else pointed digits 1) ++ exponentMark e
  else if 0 ≤ d.exponent then digits ++ zeros d.exponent.toNat ++ ".0"
  else if 0 ≤ e then pointed digits (e.toNat + 1)
  else "0." ++ zeros ((-e).toNat - 1) ++ digits

end Decimal

def Double.text : Double → String
  | .nan => "nan"
  | .infinite negative => if negative then "-inf" else "inf"
  | .finite negative units _ =>
    (if negative then "-" else "") ++ if units = 0 then "0.0" else (Decimal.shortest units).text

end Arith
