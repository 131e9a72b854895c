import Arith.Fault

/-!
# Scanning

A cursor walks over a source text once, from token to token. Blanks before a token are skipped; a
character that starts no token is a fault, and the cursor then stays in front of it, so that the
same fault is met again. After the last token every further one is the end of input.
-/

namespace Arith

/-- A place in a source text: what is left of it, the number of characters before it, its line
counted from one, and where that line starts. -/
structure Cursor where
  rest : List Char
  pos : Nat
  line : Nat
  lineStart : Nat
deriving DecidableEq

def isBlank (c : Char) : Bool := c = ' ' || c = '\t' || c = '\r' || c = '\n'

/-- The symbol of a character that is a token by itself. -/
def Symbol.ofMark? (c : Char) : Option Symbol :=
  if c = '(' then some .openParen
  else if c = ')' then some .closeParen
  else (Op.ofChar? c).map .operator

/-- The longest symbol at the front of a text, with its length and what follows it. -/
def Symbol.split? (decimals : Bool) : List Char → Option (Symbol × Nat × List Char)
  | [] => none
  | c :: cs =>
    if c.isDigit then
      let (numeral, rest) := Numeral.split decimals (c :: cs)
      some (.number numeral.value, numeral.chars.length, rest)
    else if c.isAlpha then
      let letters := (c :: cs).takeWhile Char.isAlpha
      some (.name (String.ofList letters), letters.length, (c :: cs).dropWhile Char.isAlpha)
    else
      (ofMark? c).map fun symbol => (symbol, 1, cs)

namespace Cursor

def start (source : List Char) : Cursor := ⟨source, 0, 1, 0⟩

/-- The column of the cursor, counted from one. -/
def column (c : Cursor) : Nat := c.pos - c.lineStart + 1

def position (c : Cursor) : Position := ⟨c.line, c.column⟩

/-- Skips blanks from the given place on; a line feed starts a new line behind it. -/
def skipFrom : List Char → Nat → Nat → Nat → Cursor
  | [], pos, line, lineStart => ⟨[], pos, line, lineStart⟩
  | c :: cs, pos, line, lineStart =>
    if c = '\n' then skipFrom cs (pos + 1) (line + 1) (pos + 1)
    else if isBlank c then skipFrom cs (pos + 1) line lineStart
    else ⟨c :: cs, pos, line, lineStart⟩

def skipBlanks (c : Cursor) : Cursor := skipFrom c.rest c.pos c.line c.lineStart

/-- The next token or fault, and the cursor after it. -/
def next (decimals : Bool) (c : Cursor) : Except Fault Token × Cursor :=
  let here := c.skipBlanks
  match here.rest with
  | [] => (.ok ⟨.endOfInput, here.position⟩, here)
  | first :: _ =>
    match Symbol.split? decimals here.rest with
    | some (symbol, width, rest) =>
      (.ok ⟨symbol, here.position⟩, { here with rest, pos := here.pos + width })
    | none => (.error ⟨.foreignCharacter first, here.position⟩, here)

/-! ## Every token takes characters away -/

theorem length_skipFrom_le (cs : List Char) (pos line lineStart : Nat) :
    (skipFrom cs pos line lineStart).rest.length ≤ cs.length := by
  induction cs generalizing pos line lineStart with
  | nil => simp [skipFrom]
  | cons c cs ih =>
    unfold skipFrom
    split
    · exact Nat.le_succ_of_le (ih ..)
    · split
      · exact Nat.le_succ_of_le (ih ..)
      · simp

theorem length_skipBlanks_le (c : Cursor) : c.skipBlanks.rest.length ≤ c.rest.length :=
  length_skipFrom_le ..

end Cursor

theorem Symbol.length_lt_of_split? {decimals : Bool} {cs : List Char} {symbol : Symbol}
    {width : Nat} {rest : List Char} (h : Symbol.split? decimals cs = some (symbol, width, rest)) :
    rest.length < cs.length := by
  cases cs with
  | nil => simp [split?] at h
  | cons c cs =>
    simp only [split?] at h
    split at h
    · rename_i hdigit
      simp only [Option.some.injEq, Prod.mk.injEq] at h
      obtain ⟨-, -, rfl⟩ := h
      have hsplit := congrArg List.length (Numeral.chars_split decimals (c :: cs))
      have hpos : 0 < (Numeral.split decimals (c :: cs)).1.chars.length := by
        unfold Numeral.split
        simp only [List.takeWhile_cons, hdigit]
        split
        · split <;> simp [Numeral.chars]
        · simp [Numeral.chars]
      simp only [List.length_append] at hsplit
      omega
    · split at h
      · rename_i halpha
        simp only [Option.some.injEq, Prod.mk.injEq] at h
        obtain ⟨-, -, rfl⟩ := h
        simp only [List.dropWhile_cons, halpha, List.length_cons]
        exact Nat.lt_succ_of_le (List.dropWhile_sublist _).length_le
      · simp only [Option.map_eq_some_iff, Prod.mk.injEq] at h
        obtain ⟨_, -, -, -, rfl⟩ := h
        simp

namespace Cursor

theorem length_next_lt {decimals : Bool} {c : Cursor} {t : Token}
    (h : (c.next decimals).1 = .ok t) (hend : t.symbol ≠ .endOfInput) :
    (c.next decimals).2.rest.length < c.rest.length := by
  have hskip := length_skipBlanks_le c
  revert h
  simp only [next]
  split
  · intro h
    cases h
    exact absurd rfl hend
  · rename_i first more hrest
    split
    · rename_i symbol width rest hsplit
      intro _
      exact Nat.lt_of_lt_of_le (Symbol.length_lt_of_split? hsplit) hskip
    · intro h
      cases h

theorem length_next_le (decimals : Bool) (c : Cursor) :
    (c.next decimals).2.rest.length ≤ c.rest.length := by
  have hskip := length_skipBlanks_le c
  simp only [next]
  split
  · exact hskip
  · split
    · rename_i hsplit
      exact Nat.le_of_lt (Nat.lt_of_lt_of_le (Symbol.length_lt_of_split? hsplit) hskip)
    · exact hskip

/-! ## Scanning to the end -/

/-- The tokens up to the end of input or the first fault. -/
structure Drained where
  tokens : List Token
  fault? : Option Fault
  cursor : Cursor

/-- Takes tokens until the end of input, which is the last of them, or a fault. -/
def drain (decimals : Bool) (c : Cursor) : Drained :=
  match h : c.next decimals with
  | (.error fault, after) => ⟨[], some fault, after⟩
  | (.ok token, after) =>
    if hend : token.symbol = .endOfInput then ⟨[token], none, after⟩
    else
      have : after.rest.length < c.rest.length := by
        have := length_next_lt (congrArg Prod.fst h) hend
        rwa [h] at this
      let more := after.drain decimals
      { more with tokens := token :: more.tokens }
termination_by c.rest.length

end Cursor

/-- All tokens of a source text, the end of input included, or its first fault. -/
def tokenize (decimals : Bool) (source : String) : Except Fault (List Token) :=
  let drained := (Cursor.start source.toList).drain decimals
  match drained.fault? with
  | some fault => .error fault
  | none => .ok drained.tokens

end Arith
