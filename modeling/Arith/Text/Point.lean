import Arith.Text.Quoted

/-!
# Code points

Text that comes from outside may hold surrogates that stand alone. These are code points but no
characters, and a message shows them by their codes as it does with everything that is not printable.
-/

namespace Arith

/-- A code point: a character, or a surrogate by its offset from the first one. -/
inductive Point where
  | char (c : Char)
  | surrogate (offset : Fin 0x800)
deriving DecidableEq

namespace Point

def code : Point → Nat
  | char c => c.toNat
  | surrogate offset => 0xD800 + offset

def isPrintable (p : Point) : Bool :=
  !Text.hiddenRanges.any fun range => range.1 ≤ p.code && p.code ≤ range.2

/-- The code points of a text without surrogates. -/
def ofString (s : String) : List Point := s.toList.map char

/-- The characters in front of the first surrogate. -/
def front : List Point → List Char
  | char c :: ps => c :: front ps
  | _ => []

/-- The first surrogate and all that follows it. -/
def beyond : List Point → List Point
  | char _ :: ps => beyond ps
  | ps => ps

theorem front_append_beyond (ps : List Point) : (front ps).map char ++ beyond ps = ps := by
  induction ps with
  | nil => rfl
  | cons p ps ih =>
    cases p with
    | char c => exact congrArg (char c :: ·) ih
    | surrogate offset => rfl

def escape (quote : Char) : Point → List Point
  | char c => (Text.escape quote c).map char
  | surrogate offset =>
    if (surrogate offset).isPrintable then [surrogate offset]
    else (Text.escapeCode (surrogate offset).code).map char

def quote (p : Point) : Char := if p = char '\'' then '"' else '\''

/-- A text of one code point in quotes. -/
def quoted (p : Point) : List Point := char p.quote :: p.escape p.quote ++ [char p.quote]

end Point
end Arith
