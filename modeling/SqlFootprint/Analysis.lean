import SqlFootprint.Analysis.Columns
import SqlFootprint.Analysis.NameSet
import SqlFootprint.Analysis.Tables
import SqlFootprint.Keyword
import SqlFootprint.Tree.TokenTree

/-!
# What a statement refers to

The kind of a statement, its tables and its columns. `Analysis.consolidate` makes sets of the
candidates: no name is empty, and no column is a reserved name or, case aside, a table.
-/

namespace SqlFootprint

/-- The kind of a statement and the tables and columns that it refers to. -/
structure Analysis where
  kind : StatementKind := .unknown
  tables : NameSet := ∅
  columns : NameSet := ∅
  deriving DecidableEq

namespace Analysis

/-- A name can be reported as a column beside the given tables. -/
def isColumn (tables : List String) (name : String) : Bool :=
  name != "" && !Keyword.isReserved name && !Text.listed tables name

/-- The sets of the candidates. A `DELETE` has no columns. -/
def consolidate (kind : StatementKind) (tables columns : List String) : Analysis :=
  let tables := tables.filter (· != "")
  { kind
    tables := .ofList tables
    columns := if kind = .delete then ∅ else .ofList (columns.filter (isColumn tables)) }

/-- What a statement refers to; nothing is reported of a statement of unknown kind. -/
def ofNodes (nodes : List Node) : Analysis :=
  let kind := StatementKind.ofNodes nodes
  if kind = .unknown then {}
  else consolidate kind (Tables.candidates kind nodes) (Columns.candidates kind nodes)

/-- What the statement of a stored tree refers to. -/
def ofTree (tree : TokenTree) : Analysis := ofNodes tree.nodes

end Analysis

end SqlFootprint
