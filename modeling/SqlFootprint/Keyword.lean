import SqlFootprint.Text.Ascii

/-!
# Keyword tables

A word is a keyword only if it shapes the clauses of a statement; `NAME`, `STATUS` or `DATE` are
names. Every table is looked up with the case of ASCII letters ignored. `isStructural_of_isReserved`
says that the names never reported as columns are keywords themselves.
-/

namespace SqlFootprint.Keyword

/-- The words that shape clauses. -/
def structuralWords : List String := [
  "ALL", "ALTER", "AND", "ANY", "AS", "ASC", "BETWEEN", "BY", "CASE", "COLLATE", "CREATE",
  "CROSS", "DEFAULT", "DELETE", "DESC", "DISTINCT", "DROP", "ELSE", "END", "ESCAPE", "EXCEPT",
  "EXISTS", "FETCH", "FOR", "FROM", "FULL", "GROUP", "HAVING", "ILIKE", "IN", "INNER", "INSERT",
  "INTERSECT", "INTO", "IS", "JOIN", "LATERAL", "LEFT", "LIKE", "LIMIT", "NATURAL", "NOT",
  "OFFSET", "ON", "OR", "ORDER", "OUTER", "OVER", "PARTITION", "RECURSIVE", "RETURNING", "RIGHT",
  "SELECT", "SET", "SOME", "TABLE", "THEN", "TOP", "TRUNCATE", "UNION", "UPDATE", "USING",
  "VALUES", "WHEN", "WHERE", "WINDOW", "WITH"]

/-- The words that are values. -/
def literalWords : List String := ["NULL", "TRUE", "FALSE"]

/-- The keywords that name a function when a parenthesis follows directly. -/
def callableWords : List String := ["LEFT", "RIGHT"]

/-- The words between a table and the `JOIN` of the next one. -/
def joinModifierWords : List String := ["INNER", "LEFT", "RIGHT", "FULL", "OUTER", "CROSS"]

/-- The names that are never reported as columns. -/
def reservedWords : List String := [
  "SELECT", "FROM", "WHERE", "INSERT", "INTO", "VALUES", "UPDATE", "SET", "DELETE", "JOIN",
  "INNER", "LEFT", "RIGHT", "OUTER", "ON", "GROUP", "BY", "ORDER", "HAVING", "LIMIT", "AS",
  "DISTINCT", "CASE", "WHEN", "THEN", "ELSE", "END", "AND", "OR", "NOT"]

/-- A word shapes clauses. -/
def isStructural (word : String) : Bool := Text.listed structuralWords word

/-- A word is a value. -/
def isLiteral (word : String) : Bool := Text.listed literalWords word

/-- A keyword may name a function. -/
def isCallable (word : String) : Bool := Text.listed callableWords word

/-- A word says how a table is joined. -/
def isJoinModifier (word : String) : Bool := Text.listed joinModifierWords word

/-- A name is never reported as a column. -/
def isReserved (word : String) : Bool := Text.listed reservedWords word

/-- Every reserved name shapes clauses. -/
theorem isStructural_of_isReserved {word : String} (h : isReserved word = true) :
    isStructural word = true := by
  have hsub : ∀ entry ∈ reservedWords, entry ∈ structuralWords := by decide
  obtain ⟨entry, hmem, heq⟩ := Text.listed_iff.1 h
  exact Text.listed_iff.2 ⟨entry, hsub entry hmem, heq⟩

end SqlFootprint.Keyword
