import SqlFootprint.Analysis

/-!
# Reports

The text that shows what statements refer to: a block of four lines for each, with an empty line
between blocks.
-/

namespace SqlFootprint

/-- A statement as it is shown, with what it refers to. -/
structure StatementAnalysis where
  sql : String
  analysis : Analysis
  deriving DecidableEq

namespace Report

/-- The names of a set between brackets, or that there are none. -/
def names (set : NameSet) : String :=
  if set.isEmpty then "N/A" else "[" ++ ", ".intercalate set.names ++ "]"

/-- A line of a label and what it labels. -/
def line (label value : String) : String := label ++ ": " ++ value ++ "\n"

/-- The block of one statement. -/
def block (statement : StatementAnalysis) : String :=
  line "Original Query" statement.sql ++
    line "Statement Type" statement.analysis.kind.word ++
    line "Tables" (names statement.analysis.tables) ++
    line "Columns" (names statement.analysis.columns)

/-- The blocks of statements. -/
def blocks (statements : List StatementAnalysis) : String :=
  "\n".intercalate (statements.map block)

end Report

end SqlFootprint
