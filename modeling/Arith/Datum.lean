import Arith.Calendar
import Arith.Double.Text
import Arith.Text.Quoted

/-!
# Data

The values that a settings file can hold: plain values, dates and times, lists, and tables whose
entries keep the order in which they were written.
-/

namespace Arith

inductive Datum where
  | null
  | bool (b : Bool)
  | int (n : Int)
  | real (x : Double)
  | text (s : String)
  | date (d : Date)
  | time (t : TimeOfDay)
  | dateTime (d : Date) (t : TimeOfDay) (offset? : Option Int)
  | list (items : List Datum)
  | table (entries : List (String × Datum))
deriving Inhabited

/-- The entries of a table, in the order in which they were written. -/
abbrev Table := List (String × Datum)

namespace Table

def get? (t : Table) (key : String) : Option Datum := t.lookup key

/-- Changes the value of a key where it stands; a new key comes last. -/
def put (key : String) (value : Datum) : Table → Table
  | [] => [(key, value)]
  | (k, v) :: rest => if k = key then (k, value) :: rest else (k, v) :: put key value rest

end Table

namespace Datum

inductive Kind where
  | null
  | bool
  | int
  | real
  | text
  | date
  | time
  | dateTime
  | list
  | table
deriving DecidableEq

def kind : Datum → Kind
  | null => .null
  | bool _ => .bool
  | int _ => .int
  | real _ => .real
  | text _ => .text
  | date _ => .date
  | time _ => .time
  | dateTime .. => .dateTime
  | list _ => .list
  | table _ => .table

/-- A value that counts as nothing: false, a zero, or something empty. -/
def isEmpty : Datum → Bool
  | null => true
  | bool b => !b
  | int n => n = 0
  | real (.finite _ units _) => units = 0
  | real _ => false
  | text s => s.isEmpty
  | date _ => false
  | time _ => false
  | dateTime .. => false
  | list items => items.isEmpty
  | table entries => entries.isEmpty

/-! ## Text -/

mutual

/-- The text of a value inside a list or a table: strings are quoted, dates are spelled out. -/
def dump : Datum → String
  | null => "None"
  | bool b => if b then "True" else "False"
  | int n => toString n
  | real x => x.text
  | text s => Text.quoted s
  | date d => d.dump
  | time t => t.dump
  | dateTime d t offset? =>
    "datetime.datetime(" ++ d.arguments ++ ", " ++ t.arguments ++
      (match offset? with
        | none => ""
        | some offset => ", tzinfo=" ++ offsetDump offset) ++ ")"
  | list items => "[" ++ String.intercalate ", " (dumpItems items) ++ "]"
  | table entries => "\x7b" ++ String.intercalate ", " (dumpEntries entries) ++ "\x7d"

def dumpItems : List Datum → List String
  | [] => []
  | item :: items => item.dump :: dumpItems items

def dumpEntries : List (String × Datum) → List String
  | [] => []
  | (key, value) :: entries => (Text.quoted key ++ ": " ++ value.dump) :: dumpEntries entries

end

/-- The text of a value on its own: strings are bare, dates and times in their plain form. -/
def display : Datum → String
  | text s => s
  | date d => d.text
  | time t => t.text
  | dateTime d t offset? =>
    d.text ++ " " ++ t.text ++ (match offset? with
      | none => ""
      | some offset => offsetText offset)
  | datum => datum.dump

end Datum
end Arith
