import SqlFootprint.CommandLine.Help
import SqlFootprint.Script

/-!
# Requests of the command line

What the words of a command line ask for: to analyse a text and files, to show the tokens of a
text, help with a topic, or the version. A command line that asks for nothing of this is misused.
-/

namespace SqlFootprint.CommandLine

/-- What is to be analysed. -/
structure AnalyzeRequest where
  sql : Option String := none
  files : List String := []
  directory : Option String := none
  pattern : Option String := none
  options : Options := {}
  deriving DecidableEq, Repr

/-- What a command line asks for. -/
inductive Request where
  | version
  | help (topic : Topic)
  | analyze (request : AnalyzeRequest)
  | tokens (sql : String) (dialect : Dialect)
  deriving DecidableEq, Repr

/-- The single value of an option, if it is given. -/
def value? (name : OptionName) (arguments : List Argument) : Option String :=
  (valuesOf name arguments).head?

/-- The dialect that is asked for; without the option, the generic one. -/
def dialectOf (arguments : List Argument) : Dialect :=
  ((value? .dialect arguments).bind Dialect.ofName?).getD .generic

/-- What the words after the command of a topic ask for, if its arguments are accepted. -/
def readRequest? (topic : Topic) (accepts : List Argument → Argument → Bool)
    (request? : List Argument → Option Request) (words : List String) : Option Request :=
  let reading := readWords (topic.options.map (·.1)) words
  match verdict accepts reading.complete [] reading.arguments with
  | .accepted => request? reading.arguments
  | .help => some (.help topic)
  | .misuse => none

/-- An argument of `analyze`: a dialect has its name, and no path is empty. -/
def acceptsAnalyze (_ : List Argument) : Argument → Bool
  | .value .dialect name => (Dialect.ofName? name).isSome
  | .value .directory path | .operand path => path != ""
  | _ => true

/-- What the words after `analyze` ask for. -/
def analyzeRequest? : List String → Option Request :=
  readRequest? .analyze acceptsAnalyze fun arguments ↦
    some (.analyze {
      sql := value? .sql arguments
      files := operandsOf arguments
      directory := value? .directory arguments
      pattern := value? .pattern arguments
      options := {
        dialect := dialectOf arguments
        firstOnly := !hasFlag .allStatements arguments
        verbose := hasFlag .verbose arguments } })

/-- An argument of `tokens`: a dialect has its name, and there is one operand. -/
def acceptsTokens (earlier : List Argument) : Argument → Bool
  | .value .dialect name => (Dialect.ofName? name).isSome
  | .operand _ => (operandsOf earlier).isEmpty
  | _ => true

/-- What the words after `tokens` ask for. -/
def tokensRequest? : List String → Option Request :=
  readRequest? .tokens acceptsTokens fun arguments ↦
    (operandsOf arguments).head?.map fun sql ↦ .tokens sql (dialectOf arguments)

/-- The topic of a command. -/
def Topic.ofCommand? : String → Option Topic
  | "analyze" => some .analyze
  | "tokens" => some .tokens
  | "help" => some .help
  | _ => none

/-- What the words after `help` ask for: they name one command at most. -/
def helpRequest? : List String → Option Request
  | [] => some (.help .program)
  | [command] => (Topic.ofCommand? command).map .help
  | _ => none

/-- What a command line asks for; `none` where it is misused. -/
def request? : List String → Option Request
  | [] => none
  | word :: rest =>
    match Topic.ofCommand? word with
    | some .analyze => analyzeRequest? rest
    | some .tokens => tokensRequest? rest
    | some .help => helpRequest? rest
    | _ =>
      if word = "--version" ∨ ['-', 'V'].isPrefixOf word.toList then some .version
      else if word = "--help" ∨ ['-', 'h'].isPrefixOf word.toList then some (.help .program)
      else none

end SqlFootprint.CommandLine
