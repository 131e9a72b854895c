/-!
# Operators

The five operators of the language. How strongly one binds is decided where it stands, as a sign or
between two operands, and so is not a property of the operator alone.
-/

namespace Arith

inductive Op where
  | add
  | sub
  | mul
  | div
  | pow
deriving DecidableEq

namespace Op

def all : List Op := [add, sub, mul, div, pow]

def symbol : Op → Char
  | add => '+'
  | sub => '-'
  | mul => '*'
  | div => '/'
  | pow => '^'

def name : Op → String
  | add => "ADD"
  | sub => "SUB"
  | mul => "MUL"
  | div => "DIV"
  | pow => "POW"

def text (op : Op) : String := String.singleton op.symbol

def ofChar? (c : Char) : Option Op := all.find? fun op => op.symbol = c

def ofText? (s : String) : Option Op := all.find? fun op => op.text = s

/-- Only these two may stand before an operand as a sign. -/
def isSign : Op → Bool
  | add | sub => true
  | mul | div | pow => false

end Op
end Arith
