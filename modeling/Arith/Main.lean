import Arith.Command.Run
import Std.Time.Format

/-!
# The program

Everything is decided by `Command.plan` and `Job.run`; here files are looked up, the standard input
is read if the job asks for it, and the outcome is written.
-/

namespace Arith

/-- What a path leads to on disk. -/
def Entry.onDisk (path : String) : IO Entry := do
  match ← (IO.FS.readBinFile (if path.isEmpty then "." else path)).toBaseIO with
  | .ok content => return .file content
  | .error (.inappropriateType ..) => return .directory
  | .error (.invalidArgument ..) => return .tooLong
  | .error _ => return .missing

/-- The paths that a command line may ask for, with what they lead to. -/
def lookUp (args : List String) : IO (List (String × Entry)) := do
  let asked := match Command.Options.read? args .none with
    | some (options, _) => options.configPath?.toList
    | none => []
  (asked ++ Settings.fileNames).mapM fun path => return (path, ← Entry.onDisk path)

end Arith

open Arith in
def main (args : List String) : IO UInt32 := do
  let found ← lookUp args
  let look (path : String) : Entry := (found.lookup path).getD .missing
  let outcome ← match Command.plan args look with
    | .error outcome => pure outcome
    | .ok job =>
      match job.source? with
      | some source => pure (job.run source)
      | none =>
        let text ← (← IO.getStdin).readToEnd
        pure (job.run (String.ofList (Command.unifyLineEnds text.toList)))
  let now ← Std.Time.PlainDateTime.now
  IO.print outcome.stdout
  IO.eprint (outcome.stderr (now.format "uuuu-MM-dd HH:mm:ss,SSS"))
  return outcome.exitCode.toUInt32
