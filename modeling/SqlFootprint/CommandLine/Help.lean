import SqlFootprint.CommandLine.Arguments

/-!
# Help

What help says of the program and of each of its commands: what it is for, how it is used, and its
commands, operands and options in columns. No line of a column is longer than the page is wide.
-/

namespace SqlFootprint.CommandLine

/-- What help is about. -/
inductive Topic where
  | program
  | analyze
  | tokens
  | help
  deriving DecidableEq, Repr

namespace Topic

/-- What the program or the command does. -/
def about : Topic → String
  | program => "Extract tables and columns from SQL statements"
  | analyze => "Report statement type, tables and columns for SQL text or files"
  | tokens => "Print the grouped token tree of a statement"
  | help => "Print this message or the help of the given subcommand(s)"

/-- What stands on a command line. -/
def usage : Topic → String
  | program => "rust-sqlinspect <COMMAND>"
  | analyze => "rust-sqlinspect analyze [OPTIONS] [FILES]..."
  | tokens => "rust-sqlinspect tokens [OPTIONS] <SQL>"
  | help => "rust-sqlinspect help [COMMAND]..."

/-- The commands and what each does. -/
def commands : Topic → List (String × String)
  | program =>
    [("analyze", analyze.about), ("tokens", tokens.about), ("help", help.about)]
  | _ => []

/-- The operands and what each is. -/
def operands : Topic → List (String × String)
  | program => []
  | analyze => [("[FILES]...", "SQL files to analyze")]
  | tokens => [("<SQL>", "SQL text to tokenize")]
  | help => [("[COMMAND]...", "Print help for the subcommand(s)")]

/-- The options and what each is for. -/
def options : Topic → List (OptionName × String)
  | program => [(.help, "Print help"), (.version, "Print version")]
  | analyze =>
    [(.sql, "SQL text to analyze"),
     (.directory, "Analyze every .sql file under this directory"),
     (.pattern, "Analyze every .sql file matching this glob pattern"),
     (.dialect,
      "Lexer dialect (generic, ansi, mssql, postgres, mysql, sqlite) [default: generic]"),
     (.allStatements, "Analyze every statement instead of only the first"),
     (.verbose, "Enable verbose output"),
     (.help, "Print help")]
  | tokens => [(.dialect, "Lexer dialect [default: generic]"), (.help, "Print help")]
  | help => []

end Topic

/-- An option as a column names it: the short name or the room for one, the long name, and what
its value is. -/
def OptionName.label (name : OptionName) : String :=
  (match name.short? with
    | some c => String.ofList ['-', c, ',', ' ']
    | none => "    ") ++
    "--" ++ name.long ++
    if name.takesValue then " <" ++ name.long.map Char.toUpper ++ ">" else ""

namespace Help

/-- The width of a page. -/
def width : Nat := 100

/-- A line and the lines after it: words go on in the line as long as they fit. -/
def fill (room : Nat) (line : String) : List String → List String
  | [] => [line]
  | word :: words =>
    if line.length + 1 + word.length ≤ room then fill room (line ++ " " ++ word) words
    else line :: fill room word words

/-- The lines that a text takes in the room of a column. -/
def wrap (room : Nat) (text : String) : List String :=
  match text.splitOn " " with
  | [] => []
  | word :: words => fill room word words

/-- As many blanks. -/
def blanks (count : Nat) : String := String.ofList (List.replicate count ' ')

/-- An entry of a column of labels `room` wide; further lines of its text stand below the first. -/
def entry (room : Nat) (label text : String) : String :=
  let lines := wrap (width - (room + 4)) text
  "  " ++ label ++ blanks (room - label.length + 2) ++
    ("\n" ++ blanks (room + 4)).intercalate lines ++ "\n"

/-- A part of a page with its title; without entries it is left out. -/
def part (title : String) (entries : List (String × String)) : String :=
  if entries.isEmpty then ""
  else
    let room := (entries.map fun item ↦ item.1.length).foldl max 0
    "\n" ++ title ++ ":\n" ++ String.join (entries.map fun item ↦ entry room item.1 item.2)

end Help

/-- The page of a topic. -/
def Topic.page (topic : Topic) : String :=
  topic.about ++ "\n\nUsage: " ++ topic.usage ++ "\n" ++
    Help.part "Commands" topic.commands ++
    Help.part "Arguments" topic.operands ++
    Help.part "Options" (topic.options.map fun item ↦ (item.1.label, item.2))

end SqlFootprint.CommandLine
