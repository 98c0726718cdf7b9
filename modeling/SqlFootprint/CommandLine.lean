import SqlFootprint.Batch
import SqlFootprint.CommandLine.Request
import SqlFootprint.Tree.Outline

/-!
# The command line

What a command prints and how it ends. An error before the first file ends the command with
nothing printed; what goes wrong with one file is reported for that file and the others are
printed all the same.
-/

namespace SqlFootprint.CommandLine

/-- How a command ends: its exit code, what it prints, and the errors it reports. -/
structure Outcome where
  code : Nat := 0
  output : String := ""
  errors : List String := []
  deriving DecidableEq, Repr

/-- The name and the version of the program. -/
def version : String := "rust-sqlinspect 0.1.0\n"

/-- The end of a command that an error keeps from printing. -/
def failure (message : String) : Outcome := { code := 1, errors := ["Error: " ++ message] }

/-- What is printed of a file that could be analysed. -/
def fileBlock? (file : FileAnalysis) : Option String :=
  match file.result with
  | .ok statements => some ("File: " ++ file.path ++ "\n" ++ Report.blocks statements)
  | .error _ => none

/-- What is reported of a file that could not be analysed. -/
def fileError? (file : FileAnalysis) : Option String :=
  match file.result with
  | .ok _ => none
  | .error error => some ("Error: " ++ file.path ++ ": " ++ error.chain)

/-- The end of a command that analysed a text, if one was given, and files. -/
def report (text : Option (List StatementAnalysis)) (files : List FileAnalysis) : Outcome where
  code := if (files.filterMap fileError?).isEmpty then 0 else 1
  output := "\n".intercalate ((text.map Report.blocks).toList ++ files.filterMap fileBlock?)
  errors := files.filterMap fileError?

/-- The files to analyse: those named, those of the directory, those that match the pattern. -/
def gather (tree : FileTree) (request : AnalyzeRequest) : Except Error (List String) := do
  let below ← match request.directory with
    | some directory => collectFiles tree directory
    | none => .ok []
  let matching ← match request.pattern with
    | some pattern => matchFiles tree pattern
    | none => .ok []
  return request.files ++ below ++ matching

/-- The analysis of the text that is given on the command line. -/
def analyzeText (request : AnalyzeRequest) : Except Error (Option (List StatementAnalysis)) :=
  match request.sql with
  | some sql => ((analyzeScript request.options sql).mapError .lexing).map some
  | none => .ok none

/-- Analyse what a request asks for. -/
def analyze (tree : FileTree) (request : AnalyzeRequest) : Outcome :=
  match gather tree request with
  | .error error => failure error.chain
  | .ok paths =>
    if request.sql = none ∧ paths = [] then
      failure "nothing to analyze: pass --sql, files, --dir or --glob"
    else
      match analyzeText request with
      | .error error => failure error.chain
      | .ok text => report text (analyzeFiles tree request.options paths)

/-- Show the tokens of all statements of a text as outlines. -/
def tokens (sql : String) (dialect : Dialect) : Outcome :=
  match (Tokenizer.ofDialect dialect).all sql with
  | .error error => failure (Error.lexing error).chain
  | .ok trees => { output := String.join (trees.map fun tree ↦ Node.outline tree.nodes) }

/-- Run the program with the given words. Misuse ends with code 2. -/
def run (tree : FileTree) (words : List String) : Outcome :=
  match request? words with
  | none => { code := 2 }
  | some .version => { output := version }
  | some (.help topic) => { output := topic.page }
  | some (.analyze request) => analyze tree request
  | some (.tokens sql dialect) => tokens sql dialect

end SqlFootprint.CommandLine
