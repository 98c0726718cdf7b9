import SqlFootprint.Dialect
import SqlFootprint.File.FileTree
import SqlFootprint.File.Pattern
import SqlFootprint.Lexer.Fault

/-!
# Errors

What can go wrong outside the analysis itself, which never fails. An error has a message and, for
some errors, the causes behind it; `Error.chain` shows them in a row.
-/

namespace SqlFootprint

/-- What can go wrong with an input. -/
inductive Error where
  | lexing (error : Lexer.Error)
  | unknownDialect (name : String)
  | unreadable (path : String) (fault : FileFault)
  | undecodable (path : String)
  | badPattern (pattern : String) (error : Pattern.Error)
  | unwalkable (path : String) (fault : FileFault)
  deriving DecidableEq, Repr

namespace Error

/-- The message of an error. -/
def message : Error → String
  | lexing error => "Failed to tokenize SQL: " ++ error.message
  | unknownDialect name =>
    "Unsupported SQL dialect: " ++ name ++ " (expected one of: " ++
      ", ".intercalate (Dialect.all.map Dialect.name) ++ ")"
  | unreadable path _ => "Failed to read SQL file: " ++ path
  | undecodable path => "SQL file is not valid UTF-8 or Windows-1252: " ++ path
  | badPattern pattern _ => "Invalid glob pattern: " ++ pattern
  | unwalkable path _ => "Failed to walk directory: " ++ path

/-- The causes behind an error, the nearest first. -/
def causes : Error → List String
  | unreadable _ fault => [fault.message]
  | badPattern _ error => [error.message]
  | unwalkable path fault =>
    ["IO error for operation on " ++ path ++ ": " ++ fault.message, fault.message]
  | _ => []

/-- The message and the causes in a row. -/
def chain (error : Error) : String := ": ".intercalate (error.message :: error.causes)

end Error

/-- The dialect of a name, or the error that there is none. -/
def Dialect.ofName (name : String) : Except Error Dialect :=
  match Dialect.ofName? name with
  | some dialect => .ok dialect
  | none => .error (.unknownDialect name)

end SqlFootprint
