import Arith.Fault

/-!
# Failures

Reading or evaluating fails with a fault of the source, which is reported, or with a defect: a state
that no source leads to and that only trees and stacks put together by hand can reach.
-/

namespace Arith

/-- A broken assumption of the parser or the evaluator. -/
inductive Defect where
  | signExpected (op : Op)
  | unknownOperator (text : String)
  | unknownNode (typeName : String)
  | missingValue
  | missingGroup
  | openGroup
deriving DecidableEq

def Defect.message : Defect → String
  | signExpected op => "Unexpected unary operator " ++ Text.quoted op.text
  | unknownOperator text => "Unknown binary operator " ++ Text.quoted text
  | unknownNode typeName => "Unknown node type: " ++ typeName
  | missingValue => "An operator lacks a value"
  | missingGroup => "No open parenthesis is pending"
  | openGroup => "An open parenthesis is still pending"

inductive Failure where
  | fault (fault : Fault)
  | defect (defect : Defect)
deriving DecidableEq

end Arith
