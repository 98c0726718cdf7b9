import SqlFootprint.Error
import SqlFootprint.File.Decoding
import SqlFootprint.File.Glob
import SqlFootprint.Script

/-!
# Scripts in files

Scripts are read from files, from the files of a directory, or from those that match a pattern.
A batch of files is analysed file by file; what goes wrong with one file is kept with that file.
-/

namespace SqlFootprint

/-- The text of a script in a file. -/
def readScript (tree : FileTree) (path : String) : Except Error String :=
  match tree.read path with
  | .error fault => .error (.unreadable path fault)
  | .ok bytes =>
    match Decoding.text? bytes with
    | some text => .ok text
    | none => .error (.undecodable path)

/-- The SQL files of a directory. -/
def collectFiles (tree : FileTree) (path : String) : Except Error (List String) :=
  (tree.sqlFiles path).mapError (.unwalkable path)

/-- The SQL files that match a pattern. -/
def matchFiles (tree : FileTree) (pattern : String) : Except Error (List String) :=
  (Glob.sqlFiles tree pattern).mapError (.badPattern pattern)

/-- A file and what its statements refer to, or what went wrong. -/
structure FileAnalysis where
  path : String
  result : Except Error (List StatementAnalysis)

/-- Analyse one file. -/
def analyzeFile (tree : FileTree) (options : Options) (path : String) : FileAnalysis where
  path := path
  result := (readScript tree path).bind fun text ↦ (analyzeScript options text).mapError .lexing

/-- Analyse files, each on its own and in their order. -/
def analyzeFiles (tree : FileTree) (options : Options) (paths : List String) :
    List FileAnalysis :=
  paths.map (analyzeFile tree options)

end SqlFootprint
