import Arith.Datum
import Arith.Text.UpperCase

/-!
# Settings

Two settings steer the program: whether decimals are allowed, and from which level on it logs. A
table of data is checked entry by entry, and everything that is wrong with it is reported together,
in the order of the keys.
-/

namespace Arith

inductive LogLevel where
  | debug
  | info
  | warning
  | error
  | critical
deriving DecidableEq

namespace LogLevel

def all : List LogLevel := [debug, info, warning, error, critical]

def name : LogLevel → String
  | debug => "DEBUG"
  | info => "INFO"
  | warning => "WARNING"
  | error => "ERROR"
  | critical => "CRITICAL"

def ofName? (name : String) : Option LogLevel := all.find? fun level => level.name = name

end LogLevel

structure Settings where
  allowDecimals : Bool
  logLevel : LogLevel
deriving DecidableEq

namespace Settings

/-- What holds where nothing is set. -/
def default : Settings := ⟨false, .warning⟩

def decimalsKey : String := "allow_decimals"

def levelKey : String := "log_level"

/-! ## Problems -/

inductive ProblemKind where
  | notATable
  | unknownKey
  | notABoolean
  | unclearBoolean
  | notAText
  | unknownLevel
deriving DecidableEq

namespace ProblemKind

def name : ProblemKind → String
  | notATable => "model_type"
  | unknownKey => "extra_forbidden"
  | notABoolean => "bool_type"
  | unclearBoolean => "bool_parsing"
  | notAText => "string_type"
  | unknownLevel => "value_error"

def message : ProblemKind → String
  | notATable => "Input should be a valid dictionary or instance of MathexprConfig"
  | unknownKey => "Extra inputs are not permitted"
  | notABoolean => "Input should be a valid boolean"
  | unclearBoolean => "Input should be a valid boolean, unable to interpret input"
  | notAText => "Input should be a valid string"
  | unknownLevel =>
    "Value error, log_level must be one of " ++
      String.intercalate ", " (LogLevel.all.map LogLevel.name)

end ProblemKind

/-- Something wrong with the entry of a key, or with the data as a whole. -/
structure Problem where
  key? : Option String
  kind : ProblemKind
deriving DecidableEq

/-! ## Values -/

/-- The words that stand for a boolean, in lower case. -/
def trueWords : List String := ["1", "true", "t", "y", "yes", "on"]

def falseWords : List String := ["0", "false", "f", "n", "no", "off"]

/-- The first whole number too large for a signed word of 64 bits. -/
def wordLimit : Int := 9223372036854775808

/-- Zero and one stand for booleans; what any other number means is unclear. -/
def readBit (n : Int) : Except ProblemKind Bool :=
  if n = 0 then .ok false else if n = 1 then .ok true else .error .unclearBoolean

/-- A boolean, the number zero or one, or a word for a boolean in any mix of cases. Only a whole number
of word size can be unclear: one beyond that, or with a fraction, is no boolean at all. A double is of
word size strictly between the bounds, since at the bounds it may have been rounded. -/
def readBool : Datum → Except ProblemKind Bool
  | .bool b => .ok b
  | .int n => if -wordLimit ≤ n ∧ n < wordLimit then readBit n else .error .notABoolean
  | .real x =>
    match x.toInt? with
    | some n => if -wordLimit < n ∧ n < wordLimit then readBit n else .error .notABoolean
    | none => .error .notABoolean
  | .text s =>
    if Text.lowerAscii s ∈ trueWords then .ok true
    else if Text.lowerAscii s ∈ falseWords then .ok false
    else .error .unclearBoolean
  | _ => .error .notABoolean

def readLevel : Datum → Except ProblemKind LogLevel
  | .text s =>
    match (Text.upper? s).bind LogLevel.ofName? with
    | some level => .ok level
    | none => .error .unknownLevel
  | _ => .error .notAText

/-! ## Tables -/

def entryProblem? (key : String) (value : Datum) : Option ProblemKind :=
  if key = decimalsKey then
    match readBool value with
    | .ok _ => none
    | .error kind => some kind
  else if key = levelKey then
    match readLevel value with
    | .ok _ => none
    | .error kind => some kind
  else some .unknownKey

/-- Everything that is wrong with a table, in the order of the keys. -/
def problems (t : Table) : List Problem :=
  let found := t.filterMap fun (key, value) =>
    (entryProblem? key value).map fun kind => (key, kind)
  (found.mergeSort fun a b => a.1 ≤ b.1).map fun (key, kind) => ⟨some key, kind⟩

/-- The settings that a table without problems holds. -/
def ofTable (t : Table) : Settings where
  allowDecimals :=
    match (t.get? decimalsKey).map readBool with
    | some (.ok b) => b
    | _ => default.allowDecimals
  logLevel :=
    match (t.get? levelKey).map readLevel with
    | some (.ok level) => level
    | _ => default.logLevel

/-- The settings that data hold, or all problems with them. -/
def read : Datum → Except (List Problem) Settings
  | .table t => if problems t = [] then .ok (ofTable t) else .error (problems t)
  | _ => .error [⟨none, .notATable⟩]

end Settings
end Arith
