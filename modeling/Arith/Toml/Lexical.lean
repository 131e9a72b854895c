/-!
# Lexical parts of TOML

Blanks, comments, strings and keys. A reader takes what it reads from the front of a text and
returns the rest, or nothing when the text is malformed.
-/

namespace Arith.Toml

/-- A key with its dots: the way from the root of a document to a value. -/
abbrev Key := List String

def isSpace (c : Char) : Bool := c = ' ' || c = '\t'

def isSpaceOrNewline (c : Char) : Bool := isSpace c || c = '\n'

def skipSpace (cs : List Char) : List Char := cs.dropWhile isSpace

/-- Control characters other than the tab stand nowhere in a document, line ends apart. -/
def isControl (c : Char) : Bool := (c.toNat < 32 && c ≠ '\t') || c.toNat = 127

/-- Both ways to end a line become one. -/
def joinLineEnds : List Char → List Char
  | '\r' :: '\n' :: cs => '\n' :: joinLineEnds cs
  | c :: cs => c :: joinLineEnds cs
  | [] => []

/-! ## Comments -/

def inLine (c : Char) : Bool := c ≠ '\n'

/-- Skips a comment, if one starts here, up to the end of its line. -/
def skipComment? : List Char → Option (List Char)
  | '#' :: cs =>
    if (cs.takeWhile inLine).any isControl then none else some (cs.dropWhile inLine)
  | cs => some cs

theorem length_dropWhile_le {α : Type} (p : α → Bool) (l : List α) :
    (l.dropWhile p).length ≤ l.length :=
  (List.dropWhile_sublist p).length_le

def skipFiller? (cs : List Char) : Option (List Char) :=
  match h : cs.dropWhile isSpaceOrNewline with
  | '#' :: comment =>
    have : (comment.dropWhile inLine).length < cs.length := by
      have hle := length_dropWhile_le isSpaceOrNewline cs
      have := length_dropWhile_le inLine comment
      rw [h] at hle
      simp only [List.length_cons] at hle
      omega
    if (comment.takeWhile inLine).any isControl then none
    else skipFiller? (comment.dropWhile inLine)
  | rest => some rest
termination_by cs.length

/-! ## Strings -/

def isHex (c : Char) : Bool := c.isDigit || ('a' ≤ c && c ≤ 'f') || ('A' ≤ c && c ≤ 'F')

def hexDigit (c : Char) : Nat :=
  if c.isDigit then c.toNat - 48 else if c ≤ 'F' then c.toNat - 55 else c.toNat - 87

/-- The character of a code point in hexadecimal; surrogates are no characters. -/
def hexChar? (digits : List Char) : Option Char :=
  let code := digits.foldl (fun n c => n * 16 + hexDigit c) 0
  if digits.all isHex ∧ code.isValidChar then some (Char.ofNat code) else none

def escape? : List Char → Option (Char × List Char)
  | 'b' :: cs => some ('\x08', cs)
  | 't' :: cs => some ('\t', cs)
  | 'n' :: cs => some ('\n', cs)
  | 'f' :: cs => some ('\x0c', cs)
  | 'r' :: cs => some ('\r', cs)
  | '"' :: cs => some ('"', cs)
  | '\\' :: cs => some ('\\', cs)
  | 'u' :: a :: b :: c :: d :: cs => (hexChar? [a, b, c, d]).map fun e => (e, cs)
  | 'U' :: a :: b :: c :: d :: e :: f :: g :: h :: cs =>
    (hexChar? [a, b, c, d, e, f, g, h]).map fun e => (e, cs)
  | _ => none

/-- A backslash at the end of a line takes the line end and all blanks behind it away. -/
def lineEnd? (cs : List Char) : Option (List Char) :=
  match skipSpace cs with
  | '\n' :: rest => some (rest.dropWhile isSpaceOrNewline)
  | _ => none

/-- The inside of a string in double quotes and what follows its closing quote. -/
def basic? : Nat → List Char → Option (List Char × List Char)
  | 0, _ => none
  | fuel + 1, cs =>
    match cs with
    | [] => none
    | '"' :: cs => some ([], cs)
    | '\\' :: cs => do
      let (c, rest) ← escape? cs
      let (inside, rest) ← basic? fuel rest
      some (c :: inside, rest)
    | c :: cs => do
      if isControl c then none
      let (inside, rest) ← basic? fuel cs
      some (c :: inside, rest)

/-- The inside of a string in three double quotes and what follows the first three that close it. -/
def longBasic? : Nat → List Char → Option (List Char × List Char)
  | 0, _ => none
  | fuel + 1, cs =>
    match cs with
    | [] => none
    | '"' :: '"' :: '"' :: cs => some ([], cs)
    | '\\' :: cs =>
      match escape? cs with
      | some (c, rest) => do
        let (inside, rest) ← longBasic? fuel rest
        some (c :: inside, rest)
      | none => lineEnd? cs >>= longBasic? fuel
    | c :: cs => do
      if isControl c ∧ c ≠ '\n' then none
      let (inside, rest) ← longBasic? fuel cs
      some (c :: inside, rest)

/-- The inside of a string in single quotes, which knows no escapes. -/
def literal? : List Char → Option (List Char × List Char)
  | [] => none
  | '\'' :: cs => some ([], cs)
  | c :: cs =>
    if isControl c then none else (literal? cs).map fun (inside, rest) => (c :: inside, rest)

/-- The inside of a string in three single quotes. -/
def longLiteral? : List Char → Option (List Char × List Char)
  | [] => none
  | '\'' :: '\'' :: '\'' :: cs => some ([], cs)
  | c :: cs =>
    if isControl c ∧ c ≠ '\n' then none
    else (longLiteral? cs).map fun (inside, rest) => (c :: inside, rest)

/-- Up to two more quotes behind a long string belong to it. -/
def takeQuotes (quote : Char) (inside : List Char) : List Char → List Char × List Char
  | a :: b :: cs =>
    if a = quote ∧ b = quote then (inside ++ [a, b], cs)
    else if a = quote then (inside ++ [a], b :: cs)
    else (inside, a :: b :: cs)
  | [a] => if a = quote then (inside ++ [a], []) else (inside, [a])
  | [] => (inside, [])

/-- A line end right behind three opening quotes is not part of the string. -/
def dropNewline : List Char → List Char
  | '\n' :: cs => cs
  | cs => cs

/-- A string of any of the four kinds; the text starts with its opening quote. -/
def string? (cs : List Char) : Option (String × List Char) :=
  match cs with
  | '"' :: '"' :: '"' :: cs => do
    let (inside, rest) ← longBasic? (cs.length + 1) (dropNewline cs)
    let (inside, rest) := takeQuotes '"' inside rest
    some (String.ofList inside, rest)
  | '\'' :: '\'' :: '\'' :: cs => do
    let (inside, rest) ← longLiteral? (dropNewline cs)
    let (inside, rest) := takeQuotes '\'' inside rest
    some (String.ofList inside, rest)
  | '"' :: cs => (basic? (cs.length + 1) cs).map fun (inside, rest) => (String.ofList inside, rest)
  | '\'' :: cs => (literal? cs).map fun (inside, rest) => (String.ofList inside, rest)
  | _ => none

/-! ## Keys -/

def isBare (c : Char) : Bool := c.isAlphanum || c = '-' || c = '_'

/-- One part of a key: bare, or a string on one line. -/
def keyPart? (cs : List Char) : Option (String × List Char) :=
  match cs with
  | '"' :: cs => (basic? (cs.length + 1) cs).map fun (inside, rest) => (String.ofList inside, rest)
  | '\'' :: cs => (literal? cs).map fun (inside, rest) => (String.ofList inside, rest)
  | cs =>
    match cs.takeWhile isBare with
    | [] => none
    | bare => some (String.ofList bare, cs.dropWhile isBare)

/-- The parts of a key, and what follows it after blanks. -/
def dotted? : Nat → List Char → Option (Key × List Char)
  | 0, _ => none
  | fuel + 1, cs => do
    let (part, rest) ← keyPart? cs
    match skipSpace rest with
    | '.' :: rest =>
      let (parts, rest) ← dotted? fuel (skipSpace rest)
      some (part :: parts, rest)
    | rest => some ([part], rest)

def key? (cs : List Char) : Option (Key × List Char) := dotted? (cs.length + 1) cs

end Arith.Toml
