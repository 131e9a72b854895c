import Arith.Literal
import Arith.Op

/-!
# Expressions

The trees that sources are read into, and their text with every inner node in parentheses. The text
is defined by recursion and also by a loop over a stack of pieces, which needs no recursion however
deep the tree is. An integer of too many digits is refused, and with it the text of the whole tree; a
tree that was read from a source holds none.
-/

namespace Arith

inductive Expr where
  | number (value : Literal)
  | unary (op : Op) (operand : Expr)
  | binary (op : Op) (left right : Expr)
deriving DecidableEq

namespace Expr

/-- The text of an expression, with parentheses around every operation. -/
def text : Expr → String
  | number value => value.text
  | unary op operand => "(" ++ op.text ++ operand.text ++ ")"
  | binary op left right => "(" ++ left.text ++ " " ++ op.text ++ " " ++ right.text ++ ")"

/-! ## The text by a stack -/

/-- What is still to be written: a finished text, or an expression. -/
inductive Piece where
  | done (text : String)
  | todo (e : Expr)

/-- A bound on the pieces that an expression comes apart into. -/
def pieceCount : Expr → Nat
  | number _ => 1
  | unary _ operand => operand.pieceCount + 3
  | binary _ left right => left.pieceCount + right.pieceCount + 4

def Piece.count : Piece → Nat
  | done _ => 1
  | todo e => e.pieceCount

def stackCount : List Piece → Nat
  | [] => 0
  | piece :: stack => piece.count + stackCount stack

/-- Writes the pieces of a stack, the top one first, behind the given text. -/
def renderFrom (stack : List Piece) (written : String) : String :=
  match stack with
  | [] => written
  | .done text :: stack => renderFrom stack (written ++ text)
  | .todo (number value) :: stack => renderFrom stack (written ++ value.text)
  | .todo (unary op operand) :: stack =>
    renderFrom (.done ("(" ++ op.text) :: .todo operand :: .done ")" :: stack) written
  | .todo (binary op left right) :: stack =>
    renderFrom (.done "(" :: .todo left :: .done (" " ++ op.text ++ " ") :: .todo right ::
      .done ")" :: stack) written
termination_by stackCount stack
decreasing_by
  all_goals simp only [stackCount, Piece.count, pieceCount]
  all_goals omega

/-- The text of an expression, written piece by piece. -/
def render (e : Expr) : String := renderFrom [.todo e] ""

/-! ## Texts that may be refused -/

/-- The text by recursion, with the numbers written by `write`, which may refuse one. -/
def textBy? (write : Literal → Option String) : Expr → Option String
  | number value => write value
  | unary op operand => (operand.textBy? write).map fun inner => "(" ++ op.text ++ inner ++ ")"
  | binary op left right => (left.textBy? write).bind fun l => (right.textBy? write).map fun r =>
      "(" ++ l ++ " " ++ op.text ++ " " ++ r ++ ")"

/-- The loop over a stack of pieces, with the numbers written by `write`; it breaks off at the first one
that is refused. -/
def renderBy? (write : Literal → Option String) (stack : List Piece) (written : String) :
    Option String :=
  match stack with
  | [] => some written
  | .done text :: stack => renderBy? write stack (written ++ text)
  | .todo (number value) :: stack =>
    match write value with
    | some text => renderBy? write stack (written ++ text)
    | none => none
  | .todo (unary op operand) :: stack =>
    renderBy? write (.done ("(" ++ op.text) :: .todo operand :: .done ")" :: stack) written
  | .todo (binary op left right) :: stack =>
    renderBy? write (.done "(" :: .todo left :: .done (" " ++ op.text ++ " ") :: .todo right ::
      .done ")" :: stack) written
termination_by stackCount stack
decreasing_by
  all_goals simp only [stackCount, Piece.count, pieceCount]
  all_goals omega

/-- The text of an expression, unless one of its numbers is refused. -/
def render? (e : Expr) : Option String := renderBy? Literal.text? [.todo e] ""

end Expr
end Arith
