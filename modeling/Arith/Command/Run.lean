import Arith.Command.Grid
import Arith.Command.Options
import Arith.Outline
import Arith.Parser
import Arith.Settings.File
import Arith.Version

/-!
# Running a command

A command line is settled in steps: the options are read, a question among them is answered, the
command is looked up, the settings are loaded, and the command's own arguments are read. What is left
is a job that only needs its source text.
-/

namespace Arith.Command

/-! ## Outcomes -/

/-- A line of the log, without its time. -/
structure LogLine where
  logger : String
  text : String
deriving DecidableEq

/-- What makes a run break off without a report. -/
inductive Crash where
  | unusablePath
  | trouble (trouble : Settings.Trouble)
  | defect (defect : Defect)
deriving DecidableEq

/-- What a run leaves behind. -/
structure Outcome where
  exitCode : Nat
  stdout : String
  log : List LogLine
  message : String
  crash? : Option Crash
deriving DecidableEq

namespace Outcome

def success (stdout : String) (log : List LogLine) : Outcome := ⟨0, stdout, log, "", none⟩

def reported (message : String) : Outcome := ⟨1, "", [], message, none⟩

def crashed (crash : Crash) : Outcome := ⟨1, "", [], "", some crash⟩

def usageError : Outcome := ⟨2, "", [], "", none⟩

/-- All that goes to the error stream, each line of the log with the given time. -/
def stderr (time : String) (o : Outcome) : String :=
  String.join (o.log.map fun line =>
    time ++ " - mathexpr." ++ line.logger ++ " - DEBUG - " ++ line.text ++ "\n") ++ o.message

end Outcome

/-! ## Drawing an outline -/

mutual

/-- The lines of an outline, its root first, of any width. -/
def outlineLines : Outline → List String
  | .node label branches => label :: branchLines branches

/-- The lines of branches, joined to their parent by strokes; the last one ends them. -/
def branchLines : List Outline → List String
  | [] => []
  | [branch] => hang "└── " "    " (outlineLines branch)
  | branch :: branches => hang "├── " "│   " (outlineLines branch) ++ branchLines branches
where
  /-- Puts one text before the first line and another before the rest. -/
  hang (first rest : String) : List String → List String
    | [] => []
    | line :: lines => (first ++ line) :: lines.map (rest ++ ·)

end

/-! ## Jobs -/

/-- A command that is ready to run. Without a source of its own it reads the standard input. -/
structure Job where
  verb : Verb
  decimals : Bool
  verbose : Bool
  source? : Option String

namespace Job

def unlines (lines : List String) : String := String.join (lines.map (· ++ "\n"))

def tokenColumns : List Column :=
  [⟨"Kind", false⟩, ⟨"Value", false⟩, ⟨"Line", true⟩, ⟨"Column", true⟩]

def tokenRow (t : Token) : List String :=
  [t.symbol.kind, t.symbol.text, toString t.position.line, toString t.position.column]

def parsedLine (source : String) (tree : Expr) : LogLine :=
  ⟨"parser", "Parsed " ++ Text.quoted source ++ " as " ++ tree.render⟩

def evaluatedLine (source : String) (x : Double) : LogLine :=
  ⟨"interpreter", "Evaluated " ++ Text.quoted source ++ " = " ++ x.text⟩

/-- The outcome of a failure. A fault of the source is reported; a defect breaks the run off. -/
def failed : Failure → Outcome
  | .fault fault => .reported (fault.message ++ "\n")
  | .defect defect => .crashed (.defect defect)

def run (job : Job) (source : String) : Outcome :=
  let logged (lines : List LogLine) : List LogLine := if job.verbose then lines else []
  match job.verb with
  | .eval =>
    match parse job.decimals source with
    | .error failure => failed failure
    | .ok tree =>
      match tree.evaluate with
      | .error defect => failed (.defect defect)
      | .ok x =>
        .success (x.text ++ "\n") (logged [parsedLine source tree, evaluatedLine source x])
  | .tokens =>
    match tokenize job.decimals source with
    | .error fault => failed (.fault fault)
    | .ok tokens => .success (unlines (Grid.lines "Tokens" tokenColumns (tokens.map tokenRow))) []
  | .tree =>
    match parse job.decimals source with
    | .error failure => failed failure
    | .ok tree =>
      .success (unlines (outlineLines (Outline.grow tree))) (logged [parsedLine source tree])

end Job

/-! ## Planning -/

/-- The report of settings that are not valid; it does not say what is wrong with them. -/
def invalidReport : String := "Invalid configuration: "

/-- The outcome of settings that could not be loaded. What is wrong with the content of a file is
reported; any other trouble breaks the run off. -/
def unsettled : Settings.Trouble → Outcome
  | .malformed => .reported invalidReport
  | .invalid _ => .reported invalidReport
  | trouble => .crashed (.trouble trouble)

def answer : Question → Outcome
  | .version => .success ("mathexpr version " ++ Version.current ++ "\n") []
  | .help => .success "" []

/-- What options come to by themselves: the answer to a question, or a path that cannot be one because
it holds a zero character. -/
def Options.outcome? (o : Options) : Option Outcome :=
  match o.question? with
  | some question => some (answer question)
  | .none =>
    if o.configPath?.any fun path => path.toList.contains '\x00' then some (.crashed .unusablePath)
    else .none

/-- The outcome of words that do not start with a command. They are read as options once more, so that
a question behind two hyphens is answered all the same. -/
def withoutVerb (words : List String) : Outcome :=
  match Options.read? words .none with
  | some (options, _) => options.outcome?.getD .usageError
  | none => .usageError

def settings (o : Options) (look : String → Entry) : Except Settings.Trouble Settings :=
  match o.configPath? with
  | some path => Settings.load path (look path)
  | none => Settings.find look

/-- Settles a command line into a job, or into an outcome right away. -/
def plan (args : List String) (look : String → Entry) : Except Outcome Job :=
  match Options.read? args .none with
  | none => .error .usageError
  | some (options, words) =>
    match options.outcome? with
    | some outcome => .error outcome
    | none =>
      match words with
      | [] => .error .usageError
      | word :: words =>
        match Verb.ofName? word with
        | none => .error (withoutVerb (word :: words))
        | some verb =>
          match settings options look with
          | .error trouble => .error (unsettled trouble)
          | .ok settings =>
            match arguments? words with
            | none => .error .usageError
            | some (_, true) => .error (answer .help)
            | some (given, false) =>
              let job (source? : Option String) : Job :=
                ⟨verb, options.decimals || settings.allowDecimals,
                  options.verbose || settings.logLevel = .debug, source?⟩
              match given with
              | [] => .ok (job none)
              | [source] => .ok (job (if source = "-" then none else some source))
              | _ => .error .usageError

/-- The standard input as text: every way to end a line becomes a line feed. -/
def unifyLineEnds : List Char → List Char
  | '\r' :: '\n' :: cs => '\n' :: unifyLineEnds cs
  | '\r' :: cs => '\n' :: unifyLineEnds cs
  | c :: cs => c :: unifyLineEnds cs
  | [] => []

def run (args : List String) (stdin : String) (look : String → Entry) : Outcome :=
  match plan args look with
  | .error outcome => outcome
  | .ok job => job.run (job.source?.getD (String.ofList (unifyLineEnds stdin.toList)))

end Arith.Command
