import Arith.Double.Basic

/-!
# Arithmetic on doubles

Every operation is total: it computes the exact result in units and rounds once. Dividing by zero
gives a signed infinity, and where no number makes sense the result is `nan`.
-/

namespace Arith.Double

/-- The sign bit; `nan` counts as not negative. -/
def isNegative : Double → Bool
  | nan => false
  | infinite negative => negative
  | finite negative _ _ => negative

/-- Negation only turns the sign. -/
def neg : Double → Double
  | nan => nan
  | infinite negative => infinite !negative
  | finite negative units fits => finite (!negative) units fits

/-- The same magnitude, its sign turned if asked. -/
def negateIf (turn : Bool) (x : Double) : Double := if turn then x.neg else x

/-- A sum; two opposite numbers cancel to the positive zero. -/
def add : Double → Double → Double
  | nan, _ => nan
  | _, nan => nan
  | infinite a, infinite b => if a = b then infinite a else nan
  | infinite a, finite .. => infinite a
  | finite .., infinite b => infinite b
  | finite a u _, finite b v _ =>
    if a = b then ofQuotient a (u + v) 1
    else if u = v then zero false
    else if v < u then ofQuotient a (u - v) 1
    else ofQuotient b (v - u) 1

def sub (x y : Double) : Double := add x y.neg

/-- A product; zero times infinity is no number. -/
def mul : Double → Double → Double
  | nan, _ => nan
  | _, nan => nan
  | infinite a, infinite b => infinite (a ^^ b)
  | infinite a, finite b v _ => if v = 0 then nan else infinite (a ^^ b)
  | finite a u _, infinite b => if u = 0 then nan else infinite (a ^^ b)
  | finite a u _, finite b v _ => ofQuotient (a ^^ b) (u * v) one

/-- A quotient; a number over zero is infinite, with the sign of both together. -/
def div : Double → Double → Double
  | nan, _ => nan
  | _, nan => nan
  | infinite _, infinite _ => nan
  | infinite a, finite b _ _ => infinite (a ^^ b)
  | finite a _ _, infinite b => zero (a ^^ b)
  | finite a u _, finite b v _ =>
    if v = 0 then
      if u = 0 then nan else infinite (a ^^ b)
    else ofQuotient (a ^^ b) (u * one) v

end Arith.Double
