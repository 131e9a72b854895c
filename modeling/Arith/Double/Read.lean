import Arith.Literal

/-!
# Reading numbers from text

A number may be written with a sign, a point and an exponent, or as one of the words `inf`, `infinity`
and `nan` in any mix of cases. This is wider than what a source text may hold; it serves numbers
that come from elsewhere, such as settings files.
-/

namespace Arith

namespace Decimal

/-- The exponent behind a number, zero if there is none. -/
def readExponent? : List Char → Option Int
  | [] => some 0
  | mark :: rest =>
    if mark = 'e' ∨ mark = 'E' then
      let (negative, digits) := match rest with
        | '-' :: digits => (true, digits)
        | '+' :: digits => (false, digits)
        | digits => (false, digits)
      if digits ≠ [] ∧ digits.all Char.isDigit then
        some (if negative then -(digitsValue digits : Int) else digitsValue digits)
      else none
    else none

/-- Digits with at most one point among them, and an exponent. -/
def read? (cs : List Char) : Option Decimal :=
  let whole := cs.takeWhile Char.isDigit
  let (fraction, rest) := match cs.dropWhile Char.isDigit with
    | '.' :: more => (more.takeWhile Char.isDigit, more.dropWhile Char.isDigit)
    | rest => ([], rest)
  if whole ++ fraction = [] then none
  else (readExponent? rest).map fun e => ⟨digitsValue (whole ++ fraction), e - fraction.length⟩

end Decimal

/-- The double that a text without its sign stands for. -/
def Double.readMagnitude? (negative : Bool) (cs : List Char) : Option Double :=
  let word := cs.map Char.toLower
  if word = "inf".toList ∨ word = "infinity".toList then some (.infinite negative)
  else if word = "nan".toList then some .nan
  else (Decimal.read? cs).map (Decimal.toDouble negative)

/-- The double nearest to the number that a text stands for. -/
def Double.read? (s : String) : Option Double :=
  match s.toList with
  | '-' :: cs => readMagnitude? true cs
  | '+' :: cs => readMagnitude? false cs
  | cs => readMagnitude? false cs

/-- A text of digits alone, with a minus sign or without, is an integer; any other is a double. -/
def Literal.read? (s : String) : Option Literal :=
  let (negative, digits) := match s.toList with
    | '-' :: cs => (true, cs)
    | cs => (false, cs)
  if digits ≠ [] ∧ digits.all Char.isDigit then
    some (.int (if negative then -(digitsValue digits : Int) else digitsValue digits))
  else (Double.read? s).map .real

end Arith
