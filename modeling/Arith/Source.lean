import Arith.Parser
import Arith.Text.Point

/-!
# Sources of code points

A source may hold any code points. A surrogate is no blank and neither starts nor continues a token, so
that it is reported like any other character outside the language. On a source without surrogates all
this comes to what `parse` and `evaluate` make of a text.
-/

namespace Arith

/-! ## Reports -/

/-- What is reported of a fault, in code points. -/
structure Report where
  kind : FaultKind
  description : List Point
  position : Position
deriving DecidableEq

namespace Report

/-- The heading with the place, and the description on a line of its own. -/
def message (r : Report) : List Point :=
  Point.ofString (r.kind.title ++ " at " ++ r.position.text ++ "\n") ++ r.description

/-- The report of a code point that starts no token. -/
def foreign (p : Point) (position : Position) : Report where
  kind := .unexpectedCharacter
  description := Point.ofString "Character " ++ p.quoted ++
    Point.ofString " is not part of an arithmetic expression"
  position

end Report

def Diagnostic.report (d : Diagnostic) : Report := ⟨d.kind, Point.ofString d.description, d.position⟩

/-- Why a source of code points has no value. -/
inductive Halt where
  | report (report : Report)
  | defect (defect : Defect)
deriving DecidableEq

def Failure.halt : Failure → Halt
  | fault f => .report f.diagnostic.report
  | defect d => .defect d

/-! ## Scanning -/

def Point.isBlank : Point → Bool
  | char c => Arith.isBlank c
  | surrogate _ => false

/-- A place in a source of code points. -/
structure PointCursor where
  rest : List Point
  pos : Nat
  line : Nat
  lineStart : Nat
deriving DecidableEq

namespace PointCursor

def start (source : List Point) : PointCursor := ⟨source, 0, 1, 0⟩

def position (c : PointCursor) : Position := ⟨c.line, c.pos - c.lineStart + 1⟩

def skipFrom : List Point → Nat → Nat → Nat → PointCursor
  | [], pos, line, lineStart => ⟨[], pos, line, lineStart⟩
  | p :: ps, pos, line, lineStart =>
    if p = .char '\n' then skipFrom ps (pos + 1) (line + 1) (pos + 1)
    else if p.isBlank then skipFrom ps (pos + 1) line lineStart
    else ⟨p :: ps, pos, line, lineStart⟩

def skipBlanks (c : PointCursor) : PointCursor := skipFrom c.rest c.pos c.line c.lineStart

/-- The next token or the report of a code point that starts none, and the cursor after it. -/
def next (decimals : Bool) (c : PointCursor) : Except Report Token × PointCursor :=
  let here := c.skipBlanks
  match here.rest with
  | [] => (.ok ⟨.endOfInput, here.position⟩, here)
  | first :: _ =>
    -- No token reaches beyond the first surrogate.
    match Symbol.split? decimals (Point.front here.rest) with
    | some (symbol, width, more) =>
      (.ok ⟨symbol, here.position⟩,
        { here with rest := more.map .char ++ Point.beyond here.rest, pos := here.pos + width })
    | none => (.error (.foreign first here.position), here)

theorem length_skipFrom_le (ps : List Point) (pos line lineStart : Nat) :
    (skipFrom ps pos line lineStart).rest.length ≤ ps.length := by
  induction ps generalizing pos line lineStart with
  | nil => simp [skipFrom]
  | cons p ps ih =>
    unfold skipFrom
    split
    · exact Nat.le_succ_of_le (ih ..)
    · split
      · exact Nat.le_succ_of_le (ih ..)
      · simp

theorem length_next {decimals : Bool} {c after : PointCursor} {t : Token}
    (h : c.next decimals = (.ok t, after)) :
    after.rest.length + (if t.symbol = .endOfInput then 0 else 1) ≤ c.rest.length := by
  have hskip : c.skipBlanks.rest.length ≤ c.rest.length := length_skipFrom_le ..
  simp only [next] at h
  split at h
  · cases h
    exact hskip
  · split at h
    · rename_i symbol width more hsplit
      cases h
      have hmore := Symbol.length_lt_of_split? hsplit
      have hall := congrArg List.length (Point.front_append_beyond c.skipBlanks.rest)
      simp only [List.length_append, List.length_map] at hall ⊢
      split <;> omega
    · cases h

end PointCursor

/-! ## Parsing -/

structure PointParser where
  decimals : Bool
  cursor : PointCursor
  current : Token
deriving DecidableEq

namespace PointParser

def start (decimals : Bool) (source : List Point) : Except Report PointParser :=
  match (PointCursor.start source).next decimals with
  | (.ok token, cursor) => .ok ⟨decimals, cursor, token⟩
  | (.error report, _) => .error report

/-- Consumes the current token and looks at the next one, if it is not the end of input. -/
def advance (p : PointParser) : Except Report PointParser :=
  if p.current.symbol = .endOfInput then .ok p
  else
    match p.cursor.next p.decimals with
    | (.ok token, cursor) => .ok { p with cursor, current := token }
    | (.error report, _) => .error report

def remaining (p : PointParser) : Nat :=
  p.cursor.rest.length + if p.current.symbol = .endOfInput then 0 else 1

theorem remaining_advance_lt {p p' : PointParser} (h : p.advance = .ok p')
    (hend : p.current.symbol ≠ .endOfInput) : p'.remaining < p.remaining := by
  unfold advance at h
  rw [if_neg hend] at h
  split at h
  · rename_i token cursor hnext
    cases h
    have hlength := PointCursor.length_next hnext
    simp only [remaining, if_neg hend]
    omega
  · cases h

def run (p : PointParser) (s : Progress) : Except Halt Expr :=
  match hstep : s.step p.current with
  | .error failure => .error failure.halt
  | .ok (.done tree) => .ok tree
  | .ok (.more s') =>
    match hadvance : p.advance with
    | .error report => .error (.report report)
    | .ok p' =>
      have : p'.remaining < p.remaining :=
        remaining_advance_lt hadvance (Progress.symbol_ne_endOfInput_of_step hstep)
      p'.run s'
termination_by p.remaining

end PointParser

def parsePoints (decimals : Bool) (source : List Point) : Except Halt Expr :=
  match PointParser.start decimals source with
  | .ok p => p.run Progress.initial
  | .error report => .error (.report report)

def evaluatePoints (decimals : Bool) (source : List Point) : Except Halt Double :=
  match parsePoints decimals source with
  | .error halt => .error halt
  | .ok tree =>
    match tree.evaluate with
    | .ok x => .ok x
    | .error defect => .error (.defect defect)

end Arith
