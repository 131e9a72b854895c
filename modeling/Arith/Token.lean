import Arith.Literal
import Arith.Op
import Arith.Text.Quoted

/-!
# Tokens

A symbol is what a stretch of source text stands for; a token is a symbol with the position where it
starts. Names are scanned, though no expression may hold one.
-/

namespace Arith

/-- A place in a source text; lines and columns are counted from one. -/
structure Position where
  line : Nat
  column : Nat
deriving DecidableEq

inductive Symbol where
  | number (value : Literal)
  | name (text : String)
  | openParen
  | closeParen
  | operator (op : Op)
  | endOfInput
deriving DecidableEq

structure Token where
  symbol : Symbol
  position : Position
deriving DecidableEq

/-- A position in the words of a message. -/
def Position.text (p : Position) : String :=
  "line " ++ toString p.line ++ ", column " ++ toString p.column

def Position.dump (p : Position) : String :=
  "line=" ++ toString p.line ++ ", column=" ++ toString p.column

namespace Symbol

def kind : Symbol → String
  | number _ => "number"
  | name _ => "identifier"
  | openParen => "lparen"
  | closeParen => "rparen"
  | operator _ => "operator"
  | endOfInput => "eof"

/-- The bare text of a symbol; the end of input has none. -/
def text : Symbol → String
  | number value => value.text
  | name text => text
  | openParen => "("
  | closeParen => ")"
  | operator op => op.text
  | endOfInput => ""

/-- How a message names a symbol. -/
def describe : Symbol → String
  | number value => "number " ++ value.text
  | name text => "identifier " ++ Text.quoted text
  | openParen => "'('"
  | closeParen => "')'"
  | operator op => "operator '" ++ op.text ++ "'"
  | endOfInput => "end of input"

/-- The value of a symbol in the full form of a token. -/
def dump : Symbol → String
  | number value => value.text
  | operator op => "<Op." ++ op.name ++ ": '" ++ op.text ++ "'>"
  | endOfInput => "None"
  | symbol => Text.quoted symbol.text

end Symbol

namespace Token

def dump (t : Token) : String :=
  "Token(" ++ t.symbol.kind ++ ", " ++ t.symbol.dump ++ ", " ++ t.position.dump ++ ")"

end Token
end Arith
