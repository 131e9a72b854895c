import Arith.Expr
import Arith.Failure

/-!
# Pending operators

While an expression is read, finished operands wait on one stack and operators that still lack their
right operand on another, together with the open parentheses. A pending operator is attached to its
operands as soon as an operator comes that binds less strongly, or the end of its parenthesis.
-/

namespace Arith

/-- Where an operator stands: before its operand, or between two. -/
inductive Stance where
  | sign
  | between
deriving DecidableEq

/-- An operator that waits for its right operand. -/
structure PendingOp where
  stance : Stance
  op : Op
  position : Position
deriving DecidableEq

inductive Pending where
  | operator (entry : PendingOp)
  | group (position : Position)
deriving DecidableEq

/-- How strongly an operator between operands binds; a sign ranks between powers and products. -/
def Op.precedence : Op → Nat
  | .pow => 4
  | .mul | .div => 2
  | .add | .sub => 1

namespace PendingOp

def precedence (entry : PendingOp) : Nat :=
  match entry.stance with
  | .sign => 3
  | .between => entry.op.precedence

/-- Puts an operator on top of its operands. Without enough of them it fails at the operator, and the
operands stay. -/
def attach (entry : PendingOp) (operands : List Expr) : Except Fault (List Expr) :=
  match entry.stance, operands with
  | .sign, operand :: rest => .ok (.unary entry.op operand :: rest)
  | .between, right :: left :: rest => .ok (.binary entry.op left right :: rest)
  | _, _ => .error ⟨.lacksOperand entry.op, entry.position⟩

end PendingOp

namespace Pending

/-- Whether the top entry is attached before an incoming operator is pushed. Equals group from left to
right, powers from right to left, and no operator reaches across an open parenthesis. -/
def yieldsTo (top : Pending) (incoming : PendingOp) : Bool :=
  match top with
  | group _ => false
  | operator entry =>
    incoming.precedence < entry.precedence ||
      (entry.precedence = incoming.precedence && entry.op ≠ .pow)

def isGroup : Pending → Bool
  | group _ => true
  | operator _ => false

/-- Attaches entries for as long as the top one yields to the incoming operator. -/
def makeRoom (incoming : PendingOp) (operands : List Expr) :
    List Pending → Except Fault (List Expr × List Pending)
  | operator entry :: pending =>
    if (operator entry).yieldsTo incoming then
      match entry.attach operands with
      | .ok operands => makeRoom incoming operands pending
      | .error fault => .error fault
    else .ok (operands, operator entry :: pending)
  | pending => .ok (operands, pending)

/-- The stacks after an operation that may have failed on the way. -/
structure Settled where
  fault? : Option Fault
  operands : List Expr
  pending : List Pending

/-- Attaches every entry above the innermost open parenthesis and drops that parenthesis, for a
closing one at the given position. What was attached before a failure stays attached. -/
def closeGroup (position : Position) (operands : List Expr) : List Pending → Settled
  | [] => ⟨some ⟨.neverOpened, position⟩, operands, []⟩
  | group _ :: pending => ⟨none, operands, pending⟩
  | operator entry :: pending =>
    match entry.attach operands with
    | .ok operands => closeGroup position operands pending
    | .error fault => ⟨some fault, operands, pending⟩

def attachAll (operands : List Expr) : List Pending → Except Failure (List Expr)
  | [] => .ok operands
  | group _ :: _ => .error (.defect .openGroup)
  | operator entry :: pending =>
    match entry.attach operands with
    | .ok operands => attachAll operands pending
    | .error fault => .error (.fault fault)

/-- The position of the innermost open parenthesis. -/
def innermost? : List Pending → Option Position
  | [] => none
  | group position :: _ => some position
  | operator _ :: pending => innermost? pending

end Pending
end Arith
