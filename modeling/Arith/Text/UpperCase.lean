/-!
# Upper case

The upper-case form of a text by the full rules of Unicode, as far as it is ASCII. A few characters
beyond ASCII have such a form: the dotless i, the long and the sharp s, and seven ligatures.
-/

namespace Arith.Text

/-- The upper-case form of a character if it consists of ASCII characters alone. -/
def upperAscii? (c : Char) : Option (List Char) :=
  if c.toNat < 128 then some [c.toUpper]
  else
    match c.toNat with
    | 0xDF => some ['S', 'S']
    | 0x131 => some ['I']
    | 0x17F => some ['S']
    | 0xFB00 => some ['F', 'F']
    | 0xFB01 => some ['F', 'I']
    | 0xFB02 => some ['F', 'L']
    | 0xFB03 => some ['F', 'F', 'I']
    | 0xFB04 => some ['F', 'F', 'L']
    | 0xFB05 => some ['S', 'T']
    | 0xFB06 => some ['S', 'T']
    | _ => none

/-- The upper-case form of a text if it consists of ASCII characters alone. -/
def upper? (s : String) : Option String :=
  (s.toList.mapM upperAscii?).map fun parts => String.ofList parts.flatten

/-- A text with its ASCII letters in lower case. -/
def lowerAscii (s : String) : String := s.map Char.toLower

end Arith.Text
