import Arith.Expr
import Arith.Token

/-!
# The grammar

Which sequences of symbols are expressions, and for which tree such a sequence stands. `Sentence` says
only what may follow what. `Sum` and the relations below it have one level for each strength of
binding and give the tree; parentheses lead back to the weakest level and leave no node.
-/

namespace Arith.Grammar

/-! ## Well-formed sequences -/

mutual

/-- Operands with an operator between each two. -/
inductive Sentence : List Symbol → Prop where
  | last {a : List Symbol} : Operand a → Sentence a
  | more {a b : List Symbol} (op : Op) :
    Operand a → Sentence b → Sentence (a ++ .operator op :: b)

/-- A term behind any number of signs. -/
inductive Operand : List Symbol → Prop where
  | term {a : List Symbol} : Term a → Operand a
  | sign {a : List Symbol} (op : Op) : op.isSign → Operand a → Operand (.operator op :: a)

/-- A number, or a sentence in parentheses. -/
inductive Term : List Symbol → Prop where
  | number (value : Literal) : Term [.number value]
  | group {a : List Symbol} : Sentence a → Term (.openParen :: a ++ [.closeParen])

end

/-! ## The tree of a sequence -/

mutual

/-- Additions and subtractions, from left to right. -/
inductive Sum : List Symbol → Expr → Prop where
  | product {a : List Symbol} {e : Expr} : Product a e → Sum a e
  | operation {a b : List Symbol} {l r : Expr} {op : Op} :
    Sum a l → op = .add ∨ op = .sub → Product b r →
      Sum (a ++ .operator op :: b) (.binary op l r)

/-- Multiplications and divisions, from left to right. -/
inductive Product : List Symbol → Expr → Prop where
  | signed {a : List Symbol} {e : Expr} : Signed a e → Product a e
  | operation {a b : List Symbol} {l r : Expr} {op : Op} :
    Product a l → op = .mul ∨ op = .div → Signed b r →
      Product (a ++ .operator op :: b) (.binary op l r)

/-- Any number of signs in front of a power. -/
inductive Signed : List Symbol → Expr → Prop where
  | power {a : List Symbol} {e : Expr} : Power a e → Signed a e
  | sign {a : List Symbol} {e : Expr} {op : Op} :
    op.isSign → Signed a e → Signed (.operator op :: a) (.unary op e)

/-- A power, from right to left; its exponent may have signs. -/
inductive Power : List Symbol → Expr → Prop where
  | atom {a : List Symbol} {e : Expr} : Atom a e → Power a e
  | operation {a b : List Symbol} {l r : Expr} :
    Atom a l → Signed b r → Power (a ++ .operator .pow :: b) (.binary .pow l r)

/-- A number, or a whole expression in parentheses. -/
inductive Atom : List Symbol → Expr → Prop where
  | number (value : Literal) : Atom [.number value] (.number value)
  | group {a : List Symbol} {e : Expr} : Sum a e → Atom (.openParen :: a ++ [.closeParen]) e

end

end Arith.Grammar
