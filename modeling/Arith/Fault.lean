import Arith.Token

/-!
# Faults

A fault is a cause with the place in the source where it was found. Each cause has a kind, and the
kind decides the heading of the message and the stage that reports it.
-/

namespace Arith

/-- The stage of reading that finds a fault. -/
inductive Stage where
  | scanning
  | parsing
deriving DecidableEq

def Stage.errorName : Stage → String
  | .scanning => "LexError"
  | .parsing => "ParseError"

inductive FaultKind where
  | unexpectedCharacter
  | unexpectedToken
  | unclosedParen
  | mismatchedParen
  | missingOperand
  | invalidUnaryOperator
deriving DecidableEq

namespace FaultKind

def all : List FaultKind :=
  [unexpectedCharacter, unexpectedToken, unclosedParen, mismatchedParen, missingOperand,
    invalidUnaryOperator]

def name : FaultKind → String
  | unexpectedCharacter => "unexpected_character"
  | unexpectedToken => "unexpected_token"
  | unclosedParen => "unclosed_paren"
  | mismatchedParen => "mismatched_paren"
  | missingOperand => "missing_operand"
  | invalidUnaryOperator => "invalid_unary_operator"

def ofName? (name : String) : Option FaultKind := all.find? fun kind => kind.name = name

def title : FaultKind → String
  | unexpectedCharacter => "Unexpected character"
  | unexpectedToken => "Unexpected token"
  | unclosedParen => "Unclosed parenthesis"
  | mismatchedParen => "Mismatched parenthesis"
  | missingOperand => "Missing operand"
  | invalidUnaryOperator => "Invalid unary operator"

def stage : FaultKind → Stage
  | unexpectedCharacter => .scanning
  | _ => .parsing

end FaultKind

/-! ## Diagnostics -/

/-- What is reported of a fault. -/
structure Diagnostic where
  kind : FaultKind
  description : String
  position : Position
deriving DecidableEq

namespace Diagnostic

/-- The heading with the place, and the description on a line of its own. -/
def message (d : Diagnostic) : String :=
  d.kind.title ++ " at " ++ d.position.text ++ "\n" ++ d.description

/-- All fields of a diagnostic on one line. -/
def dump (d : Diagnostic) : String :=
  d.kind.stage.errorName ++ "(" ++ d.kind.name ++ ", " ++ Text.quoted d.description ++
    ", " ++ d.position.dump ++ ")"

end Diagnostic

/-! ## Causes -/

/-- What the grammar could have gone on with. -/
inductive Expectation where
  | operand
  | afterOperand
  | wholeExpression
deriving DecidableEq

def Expectation.text : Expectation → String
  | .operand => "a number or '('"
  | .afterOperand => "an operator, ')' or end of input"
  | .wholeExpression => "a complete expression"

inductive Cause where
  | foreignCharacter (c : Char)
  | notASign (op : Op)
  | unexpected (wanted : Expectation) (found : Symbol)
  | neverClosed (opened : Position)
  | neverOpened
  | lacksOperand (op : Op)
deriving DecidableEq

namespace Cause

def kind : Cause → FaultKind
  | foreignCharacter _ => .unexpectedCharacter
  | notASign _ => .invalidUnaryOperator
  | unexpected _ _ => .unexpectedToken
  | neverClosed _ => .unclosedParen
  | neverOpened => .mismatchedParen
  | lacksOperand _ => .missingOperand

def description : Cause → String
  | foreignCharacter c =>
    "Character " ++ Text.quoted (String.singleton c) ++ " is not part of an arithmetic expression"
  | notASign op =>
    "Operator '" ++ op.text ++ "' needs a left operand; only '+' and '-' may be used as a sign"
  | unexpected wanted found =>
    "Expected " ++ wanted.text ++ ", got " ++ found.describe ++
      match found with
      | .name _ => "; names are reserved and cannot be evaluated"
      | _ => ""
  | neverClosed opened => "'(' opened at " ++ opened.text ++ " is never closed"
  | neverOpened => "')' has no matching '('"
  | lacksOperand op => "Operator '" ++ op.text ++ "' is missing an operand"

end Cause

structure Fault where
  cause : Cause
  position : Position
deriving DecidableEq

namespace Fault

def diagnostic (f : Fault) : Diagnostic := ⟨f.cause.kind, f.cause.description, f.position⟩

def message (f : Fault) : String := f.diagnostic.message

end Fault
end Arith
