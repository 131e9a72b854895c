import Arith.Settings.File

/-!
# The version

An installed program knows its version. One that runs from its sources takes the version from the
project table of the shared file; where that gives none, the version is unknown.
-/

namespace Arith.Version

def current : String := "0.1.0"

def unknown : String := "0.0.0"

/-- The version in the content of a shared file. Any value counts, by its text. -/
def ofContent (content : ByteArray) : Except Settings.Trouble String :=
  match Settings.tableOf content with
  | .error .malformed => .ok unknown
  | .error trouble => .error trouble
  | .ok t =>
    match Settings.member "project" (.table []) (.table t) with
    | .error trouble => .error trouble
    | .ok project =>
      match Settings.member "version" (.text unknown) project with
      | .error trouble => .error trouble
      | .ok value => .ok value.display

/-- The version by the installation, or else by the shared file. -/
def get (installed? : Option String) (shared : Entry) : Except Settings.Trouble String :=
  match installed?, shared with
  | some version, _ => .ok version
  | none, .file content => ofContent content
  | none, _ => .ok unknown

end Arith.Version
