/-!
# Dates and times

Calendar dates of the years 1 to 9999 and times of day down to the microsecond, each with a plain
text and with the text of the call that builds it.
-/

namespace Arith

structure Date where
  year : Nat
  month : Nat
  day : Nat
deriving DecidableEq

structure TimeOfDay where
  hour : Nat
  minute : Nat
  second : Nat
  microsecond : Nat
deriving DecidableEq

/-- A number filled up with zeros to the given width. -/
def padded (width n : Nat) : String :=
  let digits := toString n
  String.ofList (List.replicate (width - digits.length) '0') ++ digits

namespace Date

def isLeap (year : Nat) : Bool := year % 4 = 0 && (year % 100 ≠ 0 || year % 400 = 0)

def daysIn (year month : Nat) : Nat :=
  if month = 2 then if isLeap year then 29 else 28
  else if month = 4 ∨ month = 6 ∨ month = 9 ∨ month = 11 then 30
  else 31

def isValid (d : Date) : Bool :=
  1 ≤ d.year && 1 ≤ d.month && d.month ≤ 12 && 1 ≤ d.day && d.day ≤ daysIn d.year d.month

def text (d : Date) : String := padded 4 d.year ++ "-" ++ padded 2 d.month ++ "-" ++ padded 2 d.day

def arguments (d : Date) : String :=
  toString d.year ++ ", " ++ toString d.month ++ ", " ++ toString d.day

def dump (d : Date) : String := "datetime.date(" ++ d.arguments ++ ")"

end Date

namespace TimeOfDay

def text (t : TimeOfDay) : String :=
  padded 2 t.hour ++ ":" ++ padded 2 t.minute ++ ":" ++ padded 2 t.second ++
    if t.microsecond = 0 then "" else "." ++ padded 6 t.microsecond

/-- The fields as arguments; seconds and microseconds are left out when they are zero. -/
def arguments (t : TimeOfDay) : String :=
  toString t.hour ++ ", " ++ toString t.minute ++
    (if t.second = 0 ∧ t.microsecond = 0 then "" else ", " ++ toString t.second) ++
    if t.microsecond = 0 then "" else ", " ++ toString t.microsecond

def dump (t : TimeOfDay) : String := "datetime.time(" ++ t.arguments ++ ")"

end TimeOfDay

/-! ## Offsets from universal time, in minutes -/

def offsetText (minutes : Int) : String :=
  (if minutes < 0 then "-" else "+") ++ padded 2 (minutes.natAbs / 60) ++ ":" ++
    padded 2 (minutes.natAbs % 60)

/-- An offset as an argument. A negative one is a day back and the seconds that are left. -/
def offsetDump (minutes : Int) : String :=
  if minutes = 0 then "datetime.timezone.utc"
  else
    "datetime.timezone(datetime.timedelta(" ++
      (if minutes < 0 then "days=-1, seconds=" ++ toString ((minutes + 1440) * 60)
        else "seconds=" ++ toString (minutes * 60)) ++ "))"

end Arith
