/-!
# The command line

Options come first, then the name of a command, then its arguments. Short options may share one
word, and two hyphens end the options. A word that fits nowhere is a usage error.
-/

namespace Arith.Command

/-- A question that is answered instead of running a command. -/
inductive Question where
  | version
  | help
deriving DecidableEq

structure Options where
  configPath? : Option String
  decimals : Bool
  verbose : Bool
  question? : Option Question
deriving DecidableEq

namespace Options

def none : Options := ⟨.none, false, false, .none⟩

/-- The first question asked is the one that is answered. -/
def ask (q : Question) (o : Options) : Options := { o with question? := o.question? <|> some q }

/-- What one word of the command line does. -/
inductive Effect where
  | accept (o : Options)
  | wantsPath (o : Options)
  | endOfOptions
  | notAnOption
  | misuse

/-- A word with two hyphens. Only the option with a value may have one behind an equals sign. -/
def long (word : String) (o : Options) : Effect :=
  if word = "--version" then .accept (o.ask .version)
  else if word = "--help" then .accept (o.ask .help)
  else if word = "--decimals" then .accept { o with decimals := true }
  else if word = "--verbose" then .accept { o with verbose := true }
  else if word = "--config" then .wantsPath o
  else if "--config=".toList.isPrefixOf word.toList then
    .accept { o with configPath? := some (String.ofList (word.toList.drop 9)) }
  else .misuse

/-- The letters of a word with one hyphen. The option with a value takes the rest of the word, or the
next word if there is no rest. -/
def letters : List Char → Options → Effect
  | [], o => .accept o
  | 'd' :: more, o => letters more { o with decimals := true }
  | 'V' :: more, o => letters more (o.ask .version)
  | ['c'], o => .wantsPath o
  | 'c' :: more, o => .accept { o with configPath? := some (String.ofList more) }
  | _, _ => .misuse

def effect (word : String) (o : Options) : Effect :=
  match word.toList with
  | ['-', '-'] => .endOfOptions
  | '-' :: '-' :: _ => long word o
  | '-' :: c :: more => letters (c :: more) o
  | _ => .notAnOption

/-- The options in front of a command line, and the words behind them. -/
def read? : List String → Options → Option (Options × List String)
  | [], o => some (o, [])
  | word :: words, o =>
    match effect word o with
    | .accept o => read? words o
    | .wantsPath o =>
      match words with
      | path :: words => read? words { o with configPath? := some path }
      | [] => .none
    | .endOfOptions => some (o, words)
    | .notAnOption => some (o, word :: words)
    | .misuse => .none

end Options

/-! ## Commands -/

inductive Verb where
  | eval
  | tokens
  | tree
deriving DecidableEq

namespace Verb

def all : List Verb := [eval, tokens, tree]

def name : Verb → String
  | eval => "eval"
  | tokens => "tokens"
  | tree => "tree"

def ofName? (name : String) : Option Verb := all.find? fun verb => verb.name = name

end Verb

/-- The arguments of a command: those that are no options, and whether help is asked for. Nothing is
returned when an option is not known. -/
def arguments? : List String → Option (List String × Bool)
  | [] => some ([], false)
  | word :: words =>
    if word = "--" then some (words, false)
    else if word = "--help" then (arguments? words).map fun (given, _) => (given, true)
    else if word.startsWith "-" ∧ word ≠ "-" then none
    else (arguments? words).map fun (given, help) => (word :: given, help)

end Arith.Command
