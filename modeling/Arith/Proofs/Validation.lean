import Mathlib.Data.List.Nodup
import Mathlib.Data.Option.Basic
import Arith.Settings.Basic

/-!
# Validation

A table is read as settings exactly if each of its entries says something that settings can say.
Otherwise everything that is wrong with it is reported: one problem for each entry that has one, in
an order that does not depend on the order of the entries.
-/

namespace Arith

/-! ## Tables -/

namespace Table

end Table

/-! ## Levels -/

namespace LogLevel

end LogLevel

namespace Settings

/-! ## Values -/

/-- What is said against the entries of a table, as they stand. -/
def found (t : Table) : List (String × ProblemKind) :=
  t.filterMap fun (key, value) => (entryProblem? key value).map fun kind => (key, kind)

/-- The entries that say what settings say. -/
def entries (s : Settings) : Table :=
  [(decimalsKey, .bool s.allowDecimals), (levelKey, .text s.logLevel.name)]

end Settings
end Arith
