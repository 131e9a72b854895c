import Arith.Double.Text

/-!
# Number literals

A numeral is a run of digits, with a point and a second run where decimals are allowed. A plain run
of at most 4300 digits is an integer of any size; a longer one, or one with a point, is a double.
-/

namespace Arith

inductive Literal where
  | int (n : Int)
  | real (x : Double)
deriving DecidableEq

/-- A number as it is written: its whole digits, and the digits after the point if it has one. -/
structure Numeral where
  whole : List Char
  fraction : Option (List Char)

/-- The longest run of digits that is still read as an integer. -/
def digitRunLimit : Nat := 4300

/-- The number that a run of digits stands for. -/
def digitsValue (digits : List Char) : Nat :=
  digits.foldl (fun n c => n * 10 + (c.toNat - '0'.toNat)) 0

namespace Numeral

/-- The digits at the front of a text; with decimals on also the point and the digits behind it, if
at least one follows. -/
def split (decimals : Bool) (cs : List Char) : Numeral × List Char :=
  let whole := cs.takeWhile Char.isDigit
  match decimals, cs.dropWhile Char.isDigit with
  | true, '.' :: c :: more =>
    if c.isDigit then
      (⟨whole, some ((c :: more).takeWhile Char.isDigit)⟩, (c :: more).dropWhile Char.isDigit)
    else
      (⟨whole, none⟩, '.' :: c :: more)
  | _, rest => (⟨whole, none⟩, rest)

def chars (n : Numeral) : List Char :=
  n.whole ++ match n.fraction with
    | none => []
    | some digits => '.' :: digits

def value (n : Numeral) : Literal :=
  match n.fraction with
  | some digits => .real (.ofDecimal (digitsValue (n.whole ++ digits)) digits.length)
  | none =>
    if n.whole.length ≤ digitRunLimit then .int (digitsValue n.whole)
    else .real (.ofDecimal (digitsValue n.whole) 0)

theorem chars_split (decimals : Bool) (cs : List Char) :
    (split decimals cs).1.chars ++ (split decimals cs).2 = cs := by
  have hcs := List.takeWhile_append_dropWhile (p := Char.isDigit) (l := cs)
  unfold split
  simp only
  split
  · rename_i c more hrest
    have hmore := List.takeWhile_append_dropWhile (p := Char.isDigit) (l := c :: more)
    split <;> simp only [chars, List.append_nil]
    · rw [List.append_assoc, List.cons_append, hmore, ← hrest, hcs]
    · rw [← hrest, hcs]
  · simp [chars]

end Numeral

namespace Literal

/-- The text of a literal, whatever its length. -/
def text : Literal → String
  | int n => toString n
  | real x => x.text

/-- An integer is written only with as many digits as a source may hold in one. -/
def isWritable : Literal → Bool
  | int n => (Nat.toDigits 10 n.natAbs).length ≤ digitRunLimit
  | real _ => true

/-- The text of a literal, unless writing it is refused. -/
def text? (value : Literal) : Option String := if value.isWritable then some value.text else none

/-- The double that a literal evaluates to. An integer beyond all doubles, of either sign, evaluates
to the positive infinity. -/
def toDouble : Literal → Double
  | real x => x
  | int n => (Double.ofInt n).positiveIfInfinite

end Literal
end Arith
