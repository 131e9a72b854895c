import Arith.Double.Power
import Arith.Expr
import Arith.Failure

/-!
# Evaluation

A draft is a tree put together by hand: it may name an operator that does not exist or hold a node of
a foreign type, and evaluating it then ends in a defect. Operands are evaluated from left to right
and before their operator, by recursion or by a loop over a stack of tasks and a stack of values.
-/

namespace Arith

/-- The operator between two operands of a draft. -/
inductive Connective where
  | known (op : Op)
  | unknown (text : String)
deriving DecidableEq

inductive Draft where
  | number (value : Literal)
  | unary (op : Op) (operand : Draft)
  | binary (op : Connective) (left right : Draft)
  | foreign (typeName : String)
deriving DecidableEq

/-! ## Operators on values -/

def Op.applyUnary (op : Op) (x : Double) : Except Defect Double :=
  match op with
  | .add => .ok x
  | .sub => .ok x.neg
  | _ => .error (.signExpected op)

def Op.apply : Op → Double → Double → Double
  | .add => Double.add
  | .sub => Double.sub
  | .mul => Double.mul
  | .div => Double.div
  | .pow => Double.power

def Connective.apply : Connective → Double → Double → Except Defect Double
  | known op, x, y => .ok (op.apply x y)
  | unknown text, _, _ => .error (.unknownOperator text)

namespace Draft

def value : Draft → Except Defect Double
  | number n => .ok n.toDouble
  | unary op operand => operand.value >>= op.applyUnary
  | binary op left right => do
    let x ← left.value
    let y ← right.value
    op.apply x y
  | foreign typeName => .error (.unknownNode typeName)

/-! ## The value by two stacks -/

/-- What is still to be done: evaluate a draft, or apply an operator to the values on top. -/
inductive Task where
  | visit (d : Draft)
  | unary (op : Op)
  | binary (op : Connective)

def taskCount : Draft → Nat
  | number _ => 1
  | unary _ operand => operand.taskCount + 2
  | binary _ left right => left.taskCount + right.taskCount + 2
  | foreign _ => 1

def Task.count : Task → Nat
  | visit d => d.taskCount
  | unary _ => 1
  | binary _ => 1

def stackCount : List Task → Nat
  | [] => 0
  | task :: tasks => task.count + stackCount tasks

/-- Works off the tasks, the top one first, and returns the values that are left, the last on top. -/
def work (tasks : List Task) (values : List Double) : Except Defect (List Double) :=
  match tasks with
  | [] => .ok values
  | .visit (number n) :: tasks => work tasks (n.toDouble :: values)
  | .visit (unary op operand) :: tasks => work (.visit operand :: .unary op :: tasks) values
  | .visit (binary op left right) :: tasks =>
    work (.visit left :: .visit right :: .binary op :: tasks) values
  | .visit (foreign typeName) :: _ => .error (.unknownNode typeName)
  | .unary op :: tasks =>
    match values with
    | x :: values =>
      match op.applyUnary x with
      | .ok result => work tasks (result :: values)
      | .error defect => .error defect
    | [] => .error .missingValue
  | .binary op :: tasks =>
    match values with
    | right :: left :: values =>
      match op.apply left right with
      | .ok result => work tasks (result :: values)
      | .error defect => .error defect
    | _ => .error .missingValue
termination_by stackCount tasks
decreasing_by
  all_goals simp only [stackCount, Task.count, taskCount]
  all_goals omega

/-- The value of a draft, worked off task by task. -/
def evaluate (d : Draft) : Except Defect Double :=
  match work [.visit d] [] with
  | .ok (x :: _) => .ok x
  | .ok [] => .error .missingValue
  | .error defect => .error defect

/-- The expression that a draft is, unless it holds an unknown operator or a foreign node. -/
def toExpr? : Draft → Option Expr
  | number n => some (.number n)
  | unary op operand => operand.toExpr?.map (.unary op)
  | binary (.known op) left right => do
    let l ← left.toExpr?
    let r ← right.toExpr?
    some (.binary op l r)
  | binary (.unknown _) _ _ => none
  | foreign _ => none

end Draft

namespace Expr

def toDraft : Expr → Draft
  | number n => .number n
  | unary op operand => .unary op operand.toDraft
  | binary op left right => .binary (.known op) left.toDraft right.toDraft

def evaluate (e : Expr) : Except Defect Double := e.toDraft.evaluate

end Expr
end Arith
