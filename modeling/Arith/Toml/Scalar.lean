import Arith.Datum
import Arith.Double.Read
import Arith.Toml.Lexical

/-!
# Plain values of TOML

Booleans, dates and times, and numbers. A date or time is looked for before a number, since both
start with digits.
-/

namespace Arith.Toml

/-- A reader that fails on a text that does not start as it expects. -/
abbrev Reader (α : Type) := List Char → Option (α × List Char)

/-! ## Dates and times -/

/-- A number of exactly two digits within bounds. -/
def twoDigits? (low high : Nat) : Reader Nat
  | a :: b :: rest =>
    let n := digitsValue [a, b]
    if a.isDigit ∧ b.isDigit ∧ low ≤ n ∧ n ≤ high then some (n, rest) else none
  | _ => none

def date? : Reader Date
  | a :: b :: c :: d :: '-' :: rest => do
    if ¬[a, b, c, d].all Char.isDigit then none
    let (month, rest) ← twoDigits? 1 12 rest
    let '-' :: rest := rest | none
    let (day, rest) ← twoDigits? 1 31 rest
    some (⟨digitsValue [a, b, c, d], month, day⟩, rest)
  | _ => none

/-- The microseconds behind a point; digits after the sixth do not count. -/
def microseconds : List Char → Nat × List Char
  | '.' :: c :: rest =>
    if c.isDigit then
      let digits := ((c :: rest).takeWhile Char.isDigit).take 6
      (digitsValue digits * Nat.pow 10 (6 - digits.length), rest.dropWhile Char.isDigit)
    else (0, '.' :: c :: rest)
  | rest => (0, rest)

def time? : Reader TimeOfDay := fun cs => do
  let (hour, rest) ← twoDigits? 0 23 cs
  let ':' :: rest := rest | none
  let (minute, rest) ← twoDigits? 0 59 rest
  let ':' :: rest := rest | none
  let (second, rest) ← twoDigits? 0 59 rest
  let (micro, rest) := microseconds rest
  some (⟨hour, minute, second, micro⟩, rest)

/-- An offset from universal time, in minutes. -/
def offset? : Reader Int
  | 'Z' :: rest => some (0, rest)
  | 'z' :: rest => some (0, rest)
  | sign :: rest => do
    if sign ≠ '+' ∧ sign ≠ '-' then none
    let (hours, rest) ← twoDigits? 0 23 rest
    let ':' :: rest := rest | none
    let (minutes, rest) ← twoDigits? 0 59 rest
    let total : Int := hours * 60 + minutes
    some (if sign = '-' then -total else total, rest)
  | [] => none

/-- A date, alone or with a time of day behind it. The outer result says whether there is one at all,
the inner whether the calendar has it. -/
def dateTime? (cs : List Char) : Option (Option (Datum × List Char)) := do
  let (d, rest) ← date? cs
  some <|
    if ¬d.isValid then none
    else
      let timed := match rest with
        | c :: more => if c = 'T' ∨ c = 't' ∨ c = ' ' then time? more else none
        | [] => none
      match timed with
      | none => some (.date d, rest)
      | some (t, rest) =>
        match offset? rest with
        | some (offset, rest) => some (.dateTime d t (some offset), rest)
        | none => some (.dateTime d t none, rest)

/-! ## Numbers -/

/-- Digits of some kind with single underscores between them. -/
def moreDigits (ok : Char → Bool) : List Char → List Char × List Char
  | '_' :: c :: cs =>
    if ok c then
      let (digits, rest) := moreDigits ok cs
      (c :: digits, rest)
    else ([], '_' :: c :: cs)
  | c :: cs =>
    if ok c then
      let (digits, rest) := moreDigits ok cs
      (c :: digits, rest)
    else ([], c :: cs)
  | [] => ([], [])

/-- At least one digit, and more with underscores between them. -/
def digitRun? (ok : Char → Bool) : Reader (List Char)
  | c :: cs =>
    if ok c then
      let (digits, rest) := moreDigits ok cs
      some (c :: digits, rest)
    else none
  | [] => none

def isOctal (c : Char) : Bool := '0' ≤ c && c ≤ '7'

def isBinary (c : Char) : Bool := c = '0' || c = '1'

def based? (cs : List Char) : Option (Int × List Char) :=
  let read (base : Nat) (ok : Char → Bool) (cs : List Char) : Option (Int × List Char) :=
    (digitRun? ok cs).map fun (digits, rest) =>
      (digits.foldl (fun n c => n * base + hexDigit c) 0, rest)
  match cs with
  | '0' :: 'x' :: cs => read 16 isHex cs
  | '0' :: 'o' :: cs => read 8 isOctal cs
  | '0' :: 'b' :: cs => read 2 isBinary cs
  | _ => none

def fraction? : Reader (List Char)
  | '.' :: cs => digitRun? Char.isDigit cs
  | _ => none

def exponent? : Reader Int
  | mark :: cs => do
    if mark ≠ 'e' ∧ mark ≠ 'E' then none
    let (negative, cs) := match cs with
      | '-' :: cs => (true, cs)
      | '+' :: cs => (false, cs)
      | cs => (false, cs)
    let (digits, rest) ← digitRun? Char.isDigit cs
    some (if negative then -(digitsValue digits : Int) else digitsValue digits, rest)
  | [] => none

/-- A decimal number. A leading zero stands alone before the point. -/
def decimal? (cs : List Char) : Option (Datum × List Char) := do
  let (negative, cs) := match cs with
    | '-' :: cs => (true, cs)
    | '+' :: cs => (false, cs)
    | cs => (false, cs)
  let (whole, rest) ← match cs with
    | '0' :: rest => some (['0'], rest)
    | cs => digitRun? Char.isDigit cs
  let fraction := fraction? rest
  let rest := (fraction.map Prod.snd).getD rest
  let exponent := exponent? rest
  let rest := (exponent.map Prod.snd).getD rest
  if fraction.isNone && exponent.isNone then
    let n : Int := digitsValue whole
    some (.int (if negative then -n else n), rest)
  else
    let digits := (fraction.map Prod.fst).getD []
    let scale := (exponent.map Prod.fst).getD 0
    let d : Decimal := ⟨digitsValue (whole ++ digits), scale - digits.length⟩
    some (.real (d.toDouble negative), rest)

/-- The words for infinity and for no number. -/
def special? : Reader Datum
  | 'i' :: 'n' :: 'f' :: rest => some (.real (.infinite false), rest)
  | '+' :: 'i' :: 'n' :: 'f' :: rest => some (.real (.infinite false), rest)
  | '-' :: 'i' :: 'n' :: 'f' :: rest => some (.real (.infinite true), rest)
  | 'n' :: 'a' :: 'n' :: rest => some (.real .nan, rest)
  | '+' :: 'n' :: 'a' :: 'n' :: rest => some (.real .nan, rest)
  | '-' :: 'n' :: 'a' :: 'n' :: rest => some (.real .nan, rest)
  | _ => none

def bool? : Reader Datum
  | 't' :: 'r' :: 'u' :: 'e' :: rest => some (.bool true, rest)
  | 'f' :: 'a' :: 'l' :: 's' :: 'e' :: rest => some (.bool false, rest)
  | _ => none

/-- A value that holds no other. -/
def scalar? (cs : List Char) : Option (Datum × List Char) :=
  match dateTime? cs with
  | some found => found
  | none =>
    ((string? cs).map fun (s, rest) => (Datum.text s, rest))
      <|> bool? cs
      <|> ((time? cs).map fun (t, rest) => (Datum.time t, rest))
      <|> ((based? cs).map fun (n, rest) => (Datum.int n, rest))
      <|> decimal? cs
      <|> special? cs

/-- Whether an integer stands here that has more decimal digits than are read. To other bases an
integer may have any number of digits. -/
def isTooLong (cs : List Char) : Bool :=
  match scalar? cs, based? cs with
  | some (.int n, _), none => digitRunLimit < (toString n.natAbs).length
  | _, _ => false

end Arith.Toml
