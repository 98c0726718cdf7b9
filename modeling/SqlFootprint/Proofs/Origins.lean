import SqlFootprint.Proofs.Clauses

/-!
# Where columns come from

A column is named by a name or a star of the statement, or it is derived: a call or a `CASE` that is
shown by its text. `Columns.entries` reads the columns with this distinction, and forgetting it
gives the columns that are reported (`TokenTree.map_text_columns`).
-/

namespace SqlFootprint

/-- A column with where it comes from. -/
inductive Column where
  /-- A name, or a star for all columns. -/
  | named (name : String)
  /-- A call or a `CASE`, by its text. -/
  | derived (text : String)
  deriving DecidableEq, Repr

namespace Column

/-- The text by which the column is reported. -/
def text : Column → String
  | named name => name
  | derived text => text

/-- The name of a column that has one. -/
def name? : Column → Option String
  | named name => some name
  | derived _ => none

/-- Columns with names are reported by them. -/
@[simp] theorem map_text_named (names : List String) : (names.map named).map text = names := by
  rw [List.map_map, show text ∘ named = id from rfl, List.map_id]

end Column

namespace Columns

mutual

/-- The columns that a node of the projection stands for, with where they come from. -/
def entriesOf : Node → List Column
  | .mk (.identifier identifier) _ _ => [.named identifier.fullName]
  | .mk (.function name aliasName) text children =>
    [.derived (callColumn (.mk (.function name aliasName) text children) aliasName)]
  | .mk .wildcard text _ => [.named text]
  | .mk .identifierList _ children => entriesOfAll children
  | _ => []

/-- The columns that nodes of the projection stand for, with where they come from. -/
def entriesOfAll : List Node → List Column
  | [] => []
  | node :: rest => entriesOf node ++ entriesOfAll rest

end

/-- The columns of the items up to the first `FROM` outside any `CASE`, each with where it is
from. -/
def scanEntries (scan : Scan) (last : Option Node) : List Node → List Column
  | [] => []
  | node :: rest =>
    let last' := Node.lastSignificant last node
    match scan with
    | .case block around =>
      if node.isKeyword "CASE" then scanEntries (.case (node :: block) (around + 1)) last' rest
      else if node.isKeyword "END" then
        match around with
        | 0 =>
          .derived (derived (Node.textOf (node :: block).reverse)) :: scanEntries .items last' rest
        | around + 1 => scanEntries (.case (node :: block) around) last' rest
      else scanEntries (.case (node :: block) around) last' rest
    | .items =>
      if node.isKeyword "FROM" then []
      else if node.isKeyword "CASE" then scanEntries (.case [node] 0) last' rest
      else entriesOfAll (Node.itemsAfterAlias last node) ++ scanEntries .items last' rest

/-- The columns of the first projection, with where they come from. -/
def projectionEntries (nodes : List Node) : List Column :=
  match Node.afterKeyword? "SELECT" nodes with
  | some rest => scanEntries .items none rest
  | none => []

/-- The columns that a statement may refer to, with where they come from. -/
def entries (kind : StatementKind) (nodes : List Node) : List Column :=
  match kind with
  | .select => projectionEntries nodes
  | .insert =>
    let list := insertList nodes
    if list.closed then list.columns.map .named
    else list.columns.map .named ++ projectionEntries nodes
  | .update => (assigned nodes).map .named
  | .delete | .unknown => []

mutual

/-- A node's columns, reported by their texts. -/
theorem map_text_entriesOf (node : Node) : (entriesOf node).map Column.text = columnsOf node := by
  cases node with
  | mk kind text children =>
    cases kind with
    | identifierList => exact map_text_entriesOfAll children
    | _ => rfl

private theorem map_text_entriesOfAll (nodes : List Node) :
    (entriesOfAll nodes).map Column.text = columnsOfAll nodes := by
  cases nodes with
  | nil => rfl
  | cons node rest =>
    rw [entriesOfAll, List.map_append, map_text_entriesOf node, map_text_entriesOfAll rest,
      columnsOfAll]

end

private theorem map_text_scanEntries (scan : Scan) (last : Option Node) (nodes : List Node) :
    (scanEntries scan last nodes).map Column.text = scanItems scan last nodes := by
  induction nodes generalizing scan last with
  | nil => rfl
  | cons node rest ih =>
    cases scan with
    | items =>
      simp only [scanEntries, scanItems]
      split
      · rfl
      · split
        · exact ih _ _
        · rw [List.map_append, map_text_entriesOfAll, ih]
    | case block around =>
      simp only [scanEntries, scanItems]
      split
      · exact ih _ _
      · split
        · cases around with
          | zero => rw [List.map_cons, ih, Column.text]
          | succ around => exact ih _ _
        · exact ih _ _

private theorem map_text_projectionEntries (nodes : List Node) :
    (projectionEntries nodes).map Column.text = projection nodes := by
  unfold projectionEntries projection
  cases Node.afterKeyword? "SELECT" nodes with
  | none => rfl
  | some rest => exact map_text_scanEntries .items none rest

private theorem map_text_entries (kind : StatementKind) (nodes : List Node) :
    (entries kind nodes).map Column.text = candidates kind nodes := by
  cases kind with
  | select => exact map_text_projectionEntries nodes
  | insert =>
    simp only [entries, candidates]
    split
    · exact Column.map_text_named _
    · rw [List.map_append, Column.map_text_named, map_text_projectionEntries]
  | update => exact Column.map_text_named _
  | delete => rfl
  | unknown => rfl

end Columns

/-- The columns that the statement of a stored tree may refer to, with where they come from. -/
def TokenTree.columns (tree : TokenTree) : List Column :=
  Columns.entries tree.statementKind tree.nodes

/-- The columns that are reported are those of the tree, by their texts. -/
theorem TokenTree.map_text_columns (tree : TokenTree) :
    tree.columns.map Column.text = tree.columnCandidates :=
  Columns.map_text_entries tree.statementKind tree.nodes

/-- The columns of a statement are those of its nodes. -/
theorem columns_groupStatement {tokens : List Token} {nodes : List Node}
    (h : Grouping.statementNodes tokens = nodes) :
    (groupStatement tokens).columns = Columns.entries (.ofNodes nodes) nodes := by
  rw [TokenTree.columns, TokenTree.statementKind, nodes_groupStatement, h]

end SqlFootprint
