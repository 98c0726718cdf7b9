import SqlFootprint.Grouping
import SqlFootprint.Lexer
import SqlFootprint.Report
import SqlFootprint.Script.Split

/-!
# Scripts

A script is a text of statements. A `Tokenizer` turns a text into trees; the one of a dialect lexes
the text, cuts it into statements and groups each of them. Every statement is analysed on its own.
-/

namespace SqlFootprint

/-- A way to turn texts into trees. -/
structure Tokenizer where
  /-- The tree of the first statement of a text. -/
  first : String → Except Lexer.Error TokenTree
  /-- The trees of all statements of a text; without a better way, the text is one statement. -/
  all : String → Except Lexer.Error (List TokenTree) := fun text ↦
    (first text).map fun tree ↦ if tree.isEmpty then [] else [tree]

namespace Script

/-- The trees of the statements of a script. -/
def trees (dialect : Dialect) (text : String) : Except Lexer.Error (List TokenTree) :=
  (Lexer.tokens dialect text).map fun tokens ↦ (split tokens).map groupStatement

/-- The tree of the first statement of a script; a tree without nodes if there is none. -/
def firstTree (dialect : Dialect) (text : String) : Except Lexer.Error TokenTree :=
  (trees dialect text).map (·.headD {})

end Script

/-- The tokenizer of a dialect. -/
def Tokenizer.ofDialect (dialect : Dialect) : Tokenizer where
  first := Script.firstTree dialect
  all := Script.trees dialect

/-- How texts and files are analysed. -/
structure Options where
  dialect : Dialect := .generic
  /-- Only the first statement of each text counts. -/
  firstOnly : Bool := false
  verbose : Bool := false
  deriving DecidableEq, Repr

/-- The level of messages that a program logs unless it is told otherwise. -/
def Options.logFilter (options : Options) : String := if options.verbose then "debug" else "warn"

/-- A statement with its text, trimmed, and what it refers to. -/
def StatementAnalysis.ofTree (tree : TokenTree) : StatementAnalysis :=
  ⟨Text.trim tree.text, .ofTree tree⟩

/-- What the first statement of a text refers to. -/
def analyzeFirst (tokenizer : Tokenizer) (text : String) : Except Lexer.Error Analysis :=
  (tokenizer.first text).map .ofTree

/-- What the statements of a script refer to. -/
def analyzeScript (options : Options) (text : String) :
    Except Lexer.Error (List StatementAnalysis) :=
  ((Tokenizer.ofDialect options.dialect).all text).map fun trees ↦
    ((if options.firstOnly then trees.take 1 else trees).map .ofTree)

end SqlFootprint
