import Arith.Settings.Basic
import Arith.Toml.Document

/-!
# Settings files

Settings stand in a TOML file, in a table of their own or, in a file that several tools share, in a
table among those of other tools. A file that is not there means the default settings.
-/

namespace Arith

/-- What a path leads to. -/
inductive Entry where
  | missing
  | tooLong
  | directory
  | file (content : ByteArray)

namespace Settings

/-- Why a file gives no settings. -/
inductive Trouble where
  | pathTooLong
  | isDirectory
  | notUnicode
  | malformed
  | integerTooLong
  | invalid (problems : List Problem)
  | notATable (found : Datum.Kind)
deriving DecidableEq

/-! ## Paths -/

/-- The steps of a path that lead somewhere. -/
def steps (path : String) : List String :=
  (path.splitOn "/").filter fun part => part ≠ "" ∧ part ≠ "."

def fileName (path : String) : String := (steps path).getLastD ""

/-- The file that tools share; settings stand in it below the table of all tools. -/
def sharedName : String := "pyproject.toml"

/-- The file names that are looked for, in this order. -/
def fileNames : List String := ["mathexpr.toml", sharedName]

def sectionName : String := "mathexpr"

/-! ## Reading -/

def tableOf (content : ByteArray) : Except Trouble Table :=
  match String.fromUTF8? content with
  | none => .error .notUnicode
  | some source =>
    match Toml.parse source with
    | .error .malformed => .error .malformed
    | .error .integerTooLong => .error .integerTooLong
    | .ok t => .ok t

/-- The value of a key in what has to be a table; a missing key has the given value. -/
def member (key : String) (missing : Datum) : Datum → Except Trouble Datum
  | .table t => .ok ((Table.get? t key).getD missing)
  | value => .error (.notATable value.kind)

/-- The part of a file that holds the settings; empty where there is none. -/
def part (shared : Bool) (t : Table) : Except Trouble Datum :=
  if shared then
    match member "tool" (.table []) (.table t) with
    | .ok tools => member sectionName (.table []) tools
    | .error trouble => .error trouble
  else member sectionName (.table []) (.table t)

/-- The settings in the content of a file. An empty value in their place means the defaults. -/
def ofContent (shared : Bool) (content : ByteArray) : Except Trouble Settings :=
  match tableOf content with
  | .error trouble => .error trouble
  | .ok t =>
    match part shared t with
    | .error trouble => .error trouble
    | .ok value =>
      if value.isEmpty then .ok default
      else
        match read value with
        | .ok settings => .ok settings
        | .error problems => .error (.invalid problems)

def load (path : String) : Entry → Except Trouble Settings
  | .missing => .ok default
  | .tooLong => .error .pathTooLong
  | .directory => .error .isDirectory
  | .file content => ofContent (fileName path = sharedName) content

/-- The settings in the first file of the usual names that is there. -/
def findIn (look : String → Entry) : List String → Except Trouble Settings
  | [] => .ok default
  | name :: names =>
    match look name with
    | .missing => findIn look names
    | entry => load name entry

def find (look : String → Entry) : Except Trouble Settings := findIn look fileNames

end Settings

/-! ## A folder of files -/

namespace Entry

/-- The most bytes in a name, and in a path as a whole. -/
def nameLimit : Nat := 255

def pathLimit : Nat := 4095

/-- Whether a path is too long to be followed. Of its names only the first one that leads down counts:
where that is no folder, the others are not looked at. -/
def isTooLong (steps : List String) : Bool :=
  let first := (steps.dropWhile (· = "..")).headD ""
  nameLimit < first.utf8ByteSize || pathLimit < (String.intercalate "/" steps).utf8ByteSize

/-- What a path leads to in a folder that holds these files and no folders. -/
def inFolder (files : List (String × ByteArray)) (path : String) : Entry :=
  let steps := Settings.steps path
  if isTooLong steps then .tooLong
  else if path.startsWith "/" then if steps = [] then .directory else .missing
  else if steps.all (· = "..") then .directory
  else
    match steps with
    | [name] => (files.lookup name).elim .missing .file
    | _ => .missing

end Entry

end Arith
