import Arith.Expr

/-!
# Outlines

An outline shows an expression as a tree of labels. It is defined by recursion, and also grown from
a bare root by adding branches at addresses, node by node from a stack. Its rows are the labels in
order from top to bottom, each with its depth.
-/

namespace Arith

/-- A label with branches below it. -/
inductive Outline where
  | node (label : String) (branches : List Outline)

namespace Expr

def label : Expr → String
  | number value => value.text
  | unary op _ => "unary " ++ op.text
  | binary op _ _ => op.text

def children : Expr → List Expr
  | number _ => []
  | unary _ operand => [operand]
  | binary _ left right => [left, right]

def outline : Expr → Outline
  | number value => .node value.text []
  | unary op operand => .node ("unary " ++ op.text) [operand.outline]
  | binary op left right => .node op.text [left.outline, right.outline]

def nodeCount : Expr → Nat
  | number _ => 1
  | unary _ operand => operand.nodeCount + 1
  | binary _ left right => left.nodeCount + right.nodeCount + 1

end Expr

namespace Outline

def leaf (label : String) : Outline := .node label []

/-- An address leads from the root down, one number of a branch at a time. -/
abbrev Address := List Nat

/-- Applies a function to the node at an address; an address that leads nowhere changes nothing. -/
def modifyAt : Address → (Outline → Outline) → Outline → Outline
  | [], f, o => f o
  | i :: address, f, .node label branches => .node label (branches.modify i (modifyAt address f))

/-- Adds a branch without branches of its own below a node, behind those it has. -/
def addBranch (label : String) : Outline → Outline
  | .node here branches => .node here (branches ++ [leaf label])

/-- Adds a branch for each child below the node at the address. -/
def addChildren (address : Address) (children : List Expr) (o : Outline) : Outline :=
  children.foldl (fun o child => modifyAt address (addBranch child.label) o) o

/-- The children of a node with their addresses, the last one first. -/
def addressed (address : Address) (children : List Expr) : List (Expr × Address) :=
  (children.zipIdx.map fun (child, i) => (child, address ++ [i])).reverse

def nodesLeft : List (Expr × Address) → Nat
  | [] => 0
  | (e, _) :: stack => e.nodeCount + nodesLeft stack

/-- Adds the branches of every expression on the stack, the top one first, each below its address. -/
def growFrom (stack : List (Expr × Address)) (o : Outline) : Outline :=
  match stack with
  | [] => o
  | (e, address) :: stack =>
    growFrom (addressed address e.children ++ stack) (addChildren address e.children o)
termination_by nodesLeft stack
decreasing_by
  cases e <;> simp [addressed, Expr.children, Expr.nodeCount, nodesLeft]
  omega

/-- The outline of an expression, grown from its root. -/
def grow (e : Expr) : Outline := growFrom [(e, [])] (leaf e.label)

mutual

/-- The labels from top to bottom with their depths, the root at the given depth. -/
def rowsFrom (depth : Nat) : Outline → List (Nat × String)
  | .node label branches => (depth, label) :: rowsBelow (depth + 1) branches

def rowsBelow (depth : Nat) : List Outline → List (Nat × String)
  | [] => []
  | branch :: branches => rowsFrom depth branch ++ rowsBelow depth branches

end

def rows (o : Outline) : List (Nat × String) := rowsFrom 0 o

end Outline
end Arith
