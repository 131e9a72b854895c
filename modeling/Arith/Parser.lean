import Arith.Cursor
import Arith.Draft
import Arith.Pending

/-!
# Parsing

A parser holds one token of lookahead and takes the next one from the source only when it consumes
that token. Reading an expression is a run of steps, one for each token; a step either goes on with
new stacks, finishes at the end of input, or fails at the token it looks at.
-/

namespace Arith

/-! ## One step -/

/-- What is known in the middle of an expression. The top of each stack is its head; `depth` counts
the open parentheses. -/
structure Progress where
  operands : List Expr
  pending : List Pending
  depth : Nat
  wantsOperand : Bool
deriving DecidableEq

/-- The outcome of a step that does not fail. -/
inductive Step where
  | more (progress : Progress)
  | done (tree : Expr)

namespace Progress

def initial : Progress := ⟨[], [], 0, true⟩

/-- A token where an operand has to start. -/
def operandStep (s : Progress) (t : Token) : Except Failure Step :=
  match t.symbol with
  | .operator op =>
    if op.isSign then
      .ok (.more { s with pending := .operator ⟨.sign, op, t.position⟩ :: s.pending })
    else .error (.fault ⟨.notASign op, t.position⟩)
  | .number value =>
    .ok (.more { s with operands := .number value :: s.operands, wantsOperand := false })
  | .openParen =>
    .ok (.more { s with pending := .group t.position :: s.pending, depth := s.depth + 1 })
  | found => .error (.fault ⟨.unexpected .operand found, t.position⟩)

/-- The end of the input behind an operand. -/
def finish (s : Progress) (t : Token) : Except Failure Step :=
  if 0 < s.depth then
    match Pending.innermost? s.pending with
    | some opened => .error (.fault ⟨.neverClosed opened, t.position⟩)
    | none => .error (.defect .missingGroup)
  else
    match Pending.attachAll s.operands s.pending with
    | .ok [tree] => .ok (.done tree)
    | .ok _ => .error (.fault ⟨.unexpected .wholeExpression t.symbol, t.position⟩)
    | .error failure => .error failure

/-- A token behind a complete operand. -/
def operatorStep (s : Progress) (t : Token) : Except Failure Step :=
  match t.symbol with
  | .operator op =>
    let incoming : PendingOp := ⟨.between, op, t.position⟩
    match Pending.makeRoom incoming s.operands s.pending with
    | .ok (operands, pending) =>
      .ok (.more { s with operands, pending := .operator incoming :: pending, wantsOperand := true })
    | .error fault => .error (.fault fault)
  | .closeParen =>
    if s.depth = 0 then .error (.fault ⟨.neverOpened, t.position⟩)
    else
      match Pending.closeGroup t.position s.operands s.pending with
      | ⟨none, operands, pending⟩ => .ok (.more { s with operands, pending, depth := s.depth - 1 })
      | ⟨some fault, _, _⟩ => .error (.fault fault)
  | .endOfInput => s.finish t
  | found => .error (.fault ⟨.unexpected .afterOperand found, t.position⟩)

def step (s : Progress) (t : Token) : Except Failure Step :=
  if s.wantsOperand then s.operandStep t else s.operatorStep t

theorem symbol_ne_endOfInput_of_step {s s' : Progress} {t : Token}
    (h : s.step t = .ok (.more s')) : t.symbol ≠ .endOfInput := by
  intro hend
  unfold step operandStep operatorStep finish at h
  simp only [hend] at h
  split at h
  · cases h
  · split at h
    · split at h <;> cases h
    · split at h <;> cases h

end Progress

/-! ## The token cursor -/

structure Parser where
  decimals : Bool
  cursor : Cursor
  current : Token
deriving DecidableEq

namespace Parser

/-- A parser in front of the first token of a source. -/
def start (decimals : Bool) (source : String) : Except Fault Parser :=
  match (Cursor.start source.toList).next decimals with
  | (.ok token, cursor) => .ok ⟨decimals, cursor, token⟩
  | (.error fault, _) => .error fault

/-- Consumes the current token and looks at the next. The end of input is never consumed, and a fault
in the source leaves the current token where it is. -/
def advance (p : Parser) : Except Fault Token × Parser :=
  if p.current.symbol = .endOfInput then (.ok p.current, p)
  else
    match p.cursor.next p.decimals with
    | (.ok token, cursor) => (.ok p.current, { p with cursor, current := token })
    | (.error fault, cursor) => (.error fault, { p with cursor })

/-- A bound on the tokens that can still be consumed. -/
def remaining (p : Parser) : Nat :=
  p.cursor.rest.length + if p.current.symbol = .endOfInput then 0 else 1

theorem remaining_advance_lt {p p' : Parser} {t : Token} (h : p.advance = (.ok t, p'))
    (hend : p.current.symbol ≠ .endOfInput) : p'.remaining < p.remaining := by
  unfold advance at h
  rw [if_neg hend] at h
  split at h
  · rename_i token cursor hnext
    cases h
    simp only [remaining, if_neg hend]
    split
    · have := Cursor.length_next_le p.decimals p.cursor
      rw [hnext] at this
      simp only at this
      omega
    · rename_i hmore
      have := Cursor.length_next_lt (congrArg Prod.fst hnext) hmore
      rw [hnext] at this
      simp only at this
      omega
  · cases h

/-! ## Whole expressions -/

/-- Reads on from the given progress to the end of the input. -/
def run (p : Parser) (s : Progress) : Except Failure Expr × Parser :=
  match hstep : s.step p.current with
  | .error failure => (.error failure, p)
  | .ok (.done tree) => (.ok tree, p)
  | .ok (.more s') =>
    match hadvance : p.advance with
    | (.error fault, p') => (.error (.fault fault), p')
    | (.ok _, p') =>
      have : p'.remaining < p.remaining :=
        remaining_advance_lt hadvance (Progress.symbol_ne_endOfInput_of_step hstep)
      p'.run s'
termination_by p.remaining

/-- Reads the whole input from the current token on as one expression. -/
def parseExpression (p : Parser) : Except Failure Expr × Parser := p.run Progress.initial

end Parser

/-- The expression that a source is, with decimals allowed or not. -/
def parse (decimals : Bool) (source : String) : Except Failure Expr :=
  match Parser.start decimals source with
  | .ok p => p.parseExpression.1
  | .error fault => .error (.fault fault)

def evaluate (decimals : Bool) (source : String) : Except Failure Double :=
  match parse decimals source with
  | .error failure => .error failure
  | .ok tree =>
    match tree.evaluate with
    | .ok x => .ok x
    | .error defect => .error (.defect defect)

end Arith
